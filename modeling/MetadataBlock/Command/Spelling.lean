import MetadataBlock.Text.Basic

/-!
# Suggestions for misspelt words

An unknown word of the command line is compared with the words that would have
been understood. Those nearest to it are suggested.

- `Spelling.distance`: insertions, deletions, replacements and swaps of neighbours,
  where no letter is edited twice;
- `Spelling.nearest`: the candidates at the least distance, if any is near enough;
- `Spelling.hint`: the line that suggests them.
-/

namespace MetadataBlock.Spelling

/-- The distances from a suffix of a word to the suffixes of another word, shortest
first. -/
abbrev Row := Array Nat

/-- The distances from `x :: as`, given the rows of `as` and of `as` without its first
letter. -/
def nextRow (x : UInt16) (as : Text) (below twoBelow : Row) : Text → Row
  | [] => #[as.length + 1]
  | y :: bs =>
    let row := nextRow x as below twoBelow bs
    let n := bs.length
    let replaced := below.getD n 0 + if x = y then 0 else 1
    let deleted := below.getD (n + 1) 0 + 1
    let inserted := row.getD n 0 + 1
    let plain := min replaced (min deleted inserted)
    let swapped := as.head? = some y && bs.head? = some x
    row.push (if swapped then min plain (twoBelow.getD (n - 1) 0 + 1) else plain)

/-- The rows of a word and of the word without its first letter. -/
def rows (b : Text) : Text → Row × Row
  | [] => (Array.range (b.length + 1), #[])
  | x :: as =>
    let (below, twoBelow) := rows b as
    (nextRow x as below twoBelow b, below)

/-- How many edits lead from one word to another. -/
def distance (a b : Text) : Nat :=
  (rows b a).1.getD b.length 0

/-- The largest distance at which a word is suggested. -/
def maxDistance : Nat := 3

/-- Is a candidate of more than one letter near to the word, with more than two fifths
of the longer of the two kept? -/
def isNear (word candidate : Text) : Bool :=
  let edits := distance word candidate
  let length := max word.length candidate.length
  1 < candidate.length && edits ≤ maxDistance && 2 * length < 5 * (length - edits)

/-- The candidates at the least distance from the word, in alphabetical order. -/
def nearest (word : Text) (candidates : List Text) : List Text :=
  let near := candidates.filter (isNear word)
  let least := (near.map (distance word)).min?
  (near.filter fun c => some (distance word c) = least).mergeSort fun a b => !decide (b < a)

/-- The dashes in front of a long option. -/
def dashes : Text := "--"

/-- The candidates to suggest. Long options are compared without their dashes. -/
def suggestions (word : Text) (candidates : List Text) : List Text :=
  let candidates := candidates.eraseDups
  if dashes.isPrefixOf word then
    (nearest (word.drop 2) (candidates.map (·.drop 2))).map (dashes ++ ·)
  else nearest word candidates

/-- A line that suggests other words, or nothing. -/
def hint (word : Text) (candidates : List Text) : Text :=
  match suggestions word candidates with
  | [] => []
  | [one] => "\n(Did you mean " ++ one ++ "?)"
  | several => "\n(Did you mean one of " ++ Text.joinWith ", " several ++ "?)"

end MetadataBlock.Spelling
