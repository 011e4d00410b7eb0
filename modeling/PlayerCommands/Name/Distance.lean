/-!
# Edit distance

The number of single-character insertions, deletions and substitutions that separate two texts,
computed row by row: the row of a prefix `p` of the first text holds, for every prefix of the
second, its distance to `p`.  How many edits a name tolerates depends on its length.
-/

namespace PlayerCommands.Name

/-- The row of a prefix followed by `a`, from the row of the prefix.  `left` is the entry just
computed, `bs` the characters of the second text still to come; `diagonal` and `up` lie above the
entry before and the entry itself. -/
def extendRow (a : Char) (left : Nat) : List Char → List Nat → List Nat
  | b :: bs, diagonal :: up :: above =>
    let here := min (min (diagonal + if a = b then 0 else 1) (up + 1)) (left + 1)
    here :: extendRow a here bs (up :: above)
  | _, _ => []

/-- The row of a prefix followed by `a`, its first entry included. -/
def nextRow (bs : List Char) (row : List Nat) (a : Char) : List Nat :=
  match row with
  | [] => []
  | top :: _ => (top + 1) :: extendRow a (top + 1) bs row

/-- The edit distance between two lists of characters. -/
def distance (as bs : List Char) : Nat :=
  (as.foldl (nextRow bs) (List.range (bs.length + 1))).getLast?.getD 0

/-- The edit distance between two texts, over their characters. -/
def editDistance (a b : String) : Nat := distance a.toList b.toList

/-- How many edits a name of a length tolerates; very short ones only match exactly. -/
def editLimit (length : Nat) : Nat :=
  if length ≤ 2 then 0 else if length ≤ 4 then 1 else if length ≤ 8 then 2 else 3

example : editDistance "kitten" "sitting" = 3 := by decide
example : editDistance "" "abc" = 3 := by decide

end PlayerCommands.Name
