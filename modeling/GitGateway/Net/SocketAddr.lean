/-!
# Socket addresses

An address and a port.  Version four is written as four decimal numbers between dots; version six
between brackets as eight hexadecimal groups, of which one run of zeros may be left out, the last
two may be written as a version four address, and which may be followed by a scope.
-/

namespace GitGateway

/-- Where a listener or a client is. -/
inductive SocketAddr where
  | v4 (octets : List Nat) (port : Nat)
  | v6 (groups : List Nat) (scope : Nat) (port : Nat)
deriving DecidableEq, Repr

namespace SocketAddr

/-- The port of an address. -/
def port : SocketAddr → Nat
  | .v4 _ p | .v6 _ _ p => p

/-! ## Reading -/

/-- The value of a digit in bases up to sixteen. -/
def digit? (base : Nat) (c : Char) : Option Nat :=
  let v :=
    if '0' ≤ c && c ≤ '9' then some (c.toNat - 48)
    else if 'a' ≤ c && c ≤ 'f' then some (c.toNat - 87)
    else if 'A' ≤ c && c ≤ 'F' then some (c.toNat - 55)
    else none
  v.filter (· < base)

/-- Reads a number of at most `most` digits that does not pass `bound`.  Unless `padded`, a zero in
front of other digits is refused. -/
def number (base bound most : Nat) (padded : Bool) (cs : List Char) : Option (Nat × List Char) :=
  let digits := cs.takeWhile fun c => (digit? base c).isSome
  let value := digits.foldl (fun n c => n * base + (digit? base c).getD 0) 0
  if digits.isEmpty || most < digits.length || bound < value then none
  else if !padded && digits.head? == some '0' && 1 < digits.length then none
  else some (value, cs.drop digits.length)

/-- Reads one character. -/
def char (c : Char) : List Char → Option (List Char)
  | d :: rest => if c == d then some rest else none
  | [] => none

/-- Reads a separator, which stands before every part but the first. -/
def separator (c : Char) (i : Nat) (cs : List Char) : Option (List Char) :=
  if i == 0 then some cs else char c cs

/-- Reads `n` octets, of which `i` were read already. -/
def octets (i : Nat) : Nat → List Char → Option (List Nat × List Char)
  | 0, cs => some ([], cs)
  | n + 1, cs => do
    let (o, cs) ← number 10 255 3 false (← separator '.' i cs)
    let (os, cs) ← octets (i + 1) n cs
    return (o :: os, cs)

/-- Two groups from four octets. -/
def pairUp : List Nat → List Nat
  | a :: b :: rest => (a * 256 + b) :: pairUp rest
  | _ => []

/-- Reads at most `left` groups, of which `i` were read already; a version four address counts as
two and ends the run.  The flag tells whether one did. -/
def groups (i : Nat) : Nat → List Char → List Nat × Bool × List Char
  | 0, cs => ([], false, cs)
  | left + 1, cs =>
    let embedded := if left == 0 then none else (separator ':' i cs).bind (octets 0 4)
    match embedded with
    | some (os, rest) => (pairUp os, true, rest)
    | none =>
      match (separator ':' i cs).bind (number 16 65535 4 true) with
      | none => ([], false, cs)
      | some (g, rest) =>
        let (gs, embedded, rest) := groups (i + 1) left rest
        (g :: gs, embedded, rest)

/-- Reads a version six address. -/
def address6 (cs : List Char) : Option (List Nat × List Char) :=
  let (front, embedded, cs) := groups 0 8 cs
  if front.length == 8 then some (front, cs)
  else if embedded then none
  else do
    let cs ← char ':' (← char ':' cs)
    let (back, _, cs) := groups 0 (7 - front.length) cs
    return (front ++ List.replicate (8 - front.length - back.length) 0 ++ back, cs)

/-- Reads a port behind its colon. -/
def portOf (cs : List Char) : Option (Nat × List Char) := do
  number 10 65535 (cs.length + 1) true (← char ':' cs)

/-- Reads a version four address and a port. -/
def read4 (cs : List Char) : Option (SocketAddr × List Char) := do
  let (os, cs) ← octets 0 4 cs
  let (p, cs) ← portOf cs
  return (.v4 os p, cs)

/-- Reads a version six address, perhaps a scope, and a port. -/
def read6 (cs : List Char) : Option (SocketAddr × List Char) := do
  let (gs, cs) ← address6 (← char '[' cs)
  let (scope, cs) :=
    ((char '%' cs).bind fun cs => number 10 4294967295 (cs.length + 1) true cs).getD (0, cs)
  let (p, cs) ← portOf (← char ']' cs)
  return (.v6 gs scope p, cs)

/-- The address that the whole text writes. -/
def ofText? (s : String) : Option SocketAddr :=
  match (read4 s.toList).orElse fun _ => read6 s.toList with
  | some (a, []) => some a
  | _ => none

/-! ## Writing -/

/-- Groups in hexadecimal between colons. -/
def groupText (gs : List Nat) : String :=
  String.intercalate ":" (gs.map fun g => String.ofList (Nat.toDigits 16 g))

/-- Octets in decimal between dots. -/
def octetText (os : List Nat) : String := String.intercalate "." (os.map toString)

/-- The length of the run of zeros at the start. -/
def zeroRun (gs : List Nat) : Nat := (gs.takeWhile (· == 0)).length

/-- Start and length of the first longest run of zeros. -/
def longestZeros (gs : List Nat) : Nat × Nat :=
  (List.range gs.length).foldl
    (fun best i => let n := zeroRun (gs.drop i); if best.2 < n then (i, n) else best) (0, 0)

/-- A version six address without brackets. -/
def text6 (gs : List Nat) : String :=
  match gs with
  | [0, 0, 0, 0, 0, 65535, a, b] =>
    "::ffff:" ++ octetText [a / 256, a % 256, b / 256, b % 256]
  | gs =>
    let (start, n) := longestZeros gs
    if 1 < n then groupText (gs.take start) ++ "::" ++ groupText (gs.drop (start + n))
    else groupText gs

/-- The text of an address. -/
def text : SocketAddr → String
  | .v4 os p => octetText os ++ ":" ++ toString p
  | .v6 gs scope p =>
    "[" ++ text6 gs ++ (if scope == 0 then "" else "%" ++ toString scope) ++ "]:" ++ toString p

end SocketAddr

end GitGateway
