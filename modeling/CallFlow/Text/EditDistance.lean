/-! Edit distance between texts, computed row by row: the row behind some characters of the first
text has the distances from every beginning of the second one. Two rows take turns. -/

namespace CallFlow.Text

structure RowPair where
  above : Array Nat
  below : Array Nat

/-- Writes the entry behind one character of the second text, given with its place, into the row for
`c`: from the entry above, the one at the left, and the one above that. -/
def writeEntry (c : Char) (above row : Array Nat) (d : Char × Nat) : Array Nat :=
  let up := above.getD (d.2 + 1) 0
  let left := row.getD d.2 0
  let corner := above.getD d.2 0
  row.setIfInBounds (d.2 + 1)
    (min (min (up + 1) (left + 1)) (corner + if c = d.1 then 0 else 1))

namespace RowPair

def start (length : Nat) : RowPair :=
  { above := .range (length + 1), below := .replicate (length + 1) 0 }

/-- Writes the row for one more character, given with its place, over the row before the last
one. -/
def next (target : List Char) (rows : RowPair) (c : Char × Nat) : RowPair :=
  let first := rows.below.setIfInBounds 0 (c.2 + 1)
  { above := target.zipIdx.foldl (writeEntry c.1 rows.above) first, below := rows.above }

end RowPair

def editDistanceChars (s t : List Char) : Nat :=
  (s.zipIdx.foldl (RowPair.next t) (.start t.length)).above.getD t.length 0

def editDistance (s t : String) : Nat := editDistanceChars s.toList t.toList

def lowerAscii (c : Char) : Char :=
  if 'A' ≤ c ∧ c ≤ 'Z' then Char.ofNat (c.toNat + 32) else c

def lowered (s : String) : String := String.ofList (s.toList.map lowerAscii)

/-- The nearer of the best candidate so far, with its distance, and the next one; the earlier one
if both are equally near. -/
def nearer (target : String) (best : String × Nat) (candidate : String) : String × Nat :=
  let d := editDistance target candidate
  if d < best.2 then (candidate, d) else best

def nearest? (target : String) : List String → Option String
  | [] => none
  | c :: rest =>
    let target := lowered target
    some (rest.foldl (nearer target) (c, editDistance target c)).1

end CallFlow.Text
