/-!
# Similar words

How alike two words are: letters that stand in both at about the same place count, and pairs of them
that stand in the wrong order count less.  A word is similar to another if they are alike enough.
-/

namespace GitGateway.Text.Similar

/-- For each letter of a word in turn, takes the first free place of `b` nearby that holds it.
`taken` holds the places that are not free, and the result the places taken, in order of the letters. -/
def matching (range : Nat) (b : List Char) (taken : List Nat) : List (Char × Nat) → List Nat
  | [] => []
  | (c, i) :: rest =>
    let candidates := (b.zip (List.range b.length)).filter fun (d, j) =>
      d == c && i ≤ j + range && j ≤ i + range && !taken.contains j
    match candidates with
    | [] => matching range b taken rest
    | (_, j) :: _ => j :: matching range b (j :: taken) rest

/-- How far apart letters may stand. -/
def reach (a b : List Char) : Nat := max a.length b.length / 2 - 1

/-- The matches between two words: places in the second, in order of the letters of the first. -/
def matched (a b : List Char) : List Nat :=
  matching (reach a b) b [] (a.zip (List.range a.length))

/-- How many pairs of matches stand in the wrong order. -/
def swaps (b : List Char) (places : List Nat) : Nat :=
  let letters (ps : List Nat) := ps.map fun j => b.getD j ' '
  let sorted := places.mergeSort
  ((letters places).zip (letters sorted)).countP (fun (x, y) => x != y) / 2

/-- Likeness as a fraction: numerator and denominator. -/
def likeness (a b : List Char) : Nat × Nat :=
  let places := matched a b
  let m := places.length
  let (la, lb) := (a.length, b.length)
  (m * m * lb + m * m * la + (m - swaps b places) * la * lb, 3 * la * lb * m)

/-- Whether two words are alike by more than seven tenths. -/
def isSimilar (a b : List Char) : Bool :=
  let (n, d) := likeness a b
  7 * d < 10 * n && 0 < d

/-- Whether one likeness is below another. -/
def below (x y : Nat × Nat) : Bool := x.1 * y.2 < y.1 * x.2

/-- The word of a list that is most like the given one, if any is similar. -/
def best? (word : String) (words : List String) : Option String :=
  let scored := (words.filter fun w => isSimilar word.toList w.toList).map fun w =>
    (likeness word.toList w.toList, w)
  match scored with
  | [] => none
  | first :: rest => some (rest.foldl (fun b s => if below s.1 b.1 then b else s) first).2

end GitGateway.Text.Similar
