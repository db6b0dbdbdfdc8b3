import MetadataBlock.Text.Basic

/-!
# Styled text

On a terminal text may be shown in colours. A style is switched on before the text
and off behind it; at a line end it is switched off and on again. Without colours
a style changes nothing.
-/

namespace MetadataBlock

/-- The styles in use. -/
inductive Style where
  | red
  | green
  | yellow
  | cyan
  | bold
  | dim
  deriving DecidableEq

namespace Style

/-- A control sequence with a number. -/
def control (n : Nat) : Text :=
  0x1B :: Text.unit '[' :: Text.ofNat n ++ [Text.unit 'm']

/-- The control sequence that switches a style on. -/
def on : Style → Text
  | red => control 31
  | green => control 32
  | yellow => control 33
  | cyan => control 36
  | bold => control 1
  | dim => control 2

/-- The control sequence that switches a style off. -/
def off : Style → Text
  | red | green | yellow | cyan => control 39
  | bold | dim => control 22

/-- Write something behind every occurrence of a part. -/
def addBehind (part addition : Text) : Nat → Text → Text
  | 0, t => t
  | _, [] => []
  | fuel + 1, u :: rest =>
    if part.isPrefixOf (u :: rest) then
      part ++ addition ++ addBehind part addition fuel ((u :: rest).drop part.length)
    else u :: addBehind part addition fuel rest

/-- Switch a style off before every line end and on behind it. -/
def aroundLineEnds (s : Style) : Text → Text
  | [] => []
  | [u] => if u == Text.lineFeed then s.off ++ [u] ++ s.on else [u]
  | u :: v :: rest =>
    if u == Text.carriageReturn && v == Text.lineFeed then s.off ++ [u, v] ++ s.on ++ aroundLineEnds s rest
    else if u == Text.lineFeed then s.off ++ [u] ++ s.on ++ aroundLineEnds s (v :: rest)
    else u :: aroundLineEnds s (v :: rest)

/-- The text in a style, if there are colours. Styles that the text itself switches
off are switched on again. -/
def paint (s : Style) (color : Bool) (t : Text) : Text :=
  if !color || t.isEmpty then t
  else s.on ++ s.aroundLineEnds (addBehind s.off s.on t.length t) ++ s.off

end Style

end MetadataBlock
