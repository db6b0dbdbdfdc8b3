import MetadataBlock.Document.Basic

/-!
# Cells and scalars

An empty cell is null, `TRUE` and `FALSE` in any letter case are truth values,
and a canonical integer numeral that binary64 holds exactly is a number. Every
other cell is the text that it is.
-/

namespace MetadataBlock.Cell

/-- The digits of a numeral have no superfluous zero in front. -/
def isCanonicalDigits (digits : Text) : Bool :=
  !digits.isEmpty && digits.all Text.isDigit
    && (digits.head? != some (Text.unit '0') || digits.length == 1)

/-- The number that an integer numeral stands for, if it is exact. Minus zero keeps
its sign. -/
def number? (cell : Text) : Option Number :=
  let negative := cell.head? == some (Text.unit '-')
  let digits := if negative then cell.tail else cell
  if isCanonicalDigits digits then
    let n := Text.natOfDigits digits
    if Number.maxSafe < n then none
    else if negative then some (if n = 0 then .negZero else .whole (-(n : Int)))
    else some (.whole n)
  else none

/-- The scalar that a cell holds. -/
def parse (cell : Text) : Scalar :=
  if cell.isEmpty then .null
  else if Text.lowerAscii cell == "true" then .bool true
  else if Text.lowerAscii cell == "false" then .bool false
  else
    match number? cell with
    | some n => .number n
    | none => .text cell

/-- The cell for a scalar. -/
def render : Scalar → Text
  | .null => []
  | .bool b => if b then "TRUE" else "FALSE"
  | .number n => n.text
  | .text t => t

end MetadataBlock.Cell
