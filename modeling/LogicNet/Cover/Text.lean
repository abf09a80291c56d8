import LogicNet.Cover.Basic
import LogicNet.Cube.Checked

/-!
The text of a cover: `on` or `off` for its polarity and the texts of its cubes between brackets. A
cover does not know how many inputs it is meant for, so a writer gives the width; `display` takes
the least width that shows every place some cube cares about.
-/

namespace LogicNet.Cover

/-- Reads one cube from each text; the first text that is none decides the error. -/
def parse (texts : List String) (polarity : Bool) : Except ParseError Cover := do
  return ⟨← texts.mapM Cube.parse, polarity⟩

/-- The text with every cube over `width` inputs. -/
def render (cover : Cover) (width : Nat) : String :=
  (if cover.polarity then "on" else "off") ++ "[" ++
    String.intercalate " " (cover.cubes.map (·.render width)) ++ "]"

/-- As `render`; a cover without cubes has a text at every width. -/
def renderChecked (cover : Cover) (width : Nat) : Except Fault String :=
  if width ≤ maxFanin ∨ cover.cubes = [] then .ok (cover.render width)
  else .error (.cubeTooWide width)

/-- The number of places up to the highest one that some cube cares about. -/
def width (cover : Cover) : Nat :=
  cover.cubes.foldl (fun width cube => max width cube.mask.bitLength) 0

/-- The text over the cover's own width. Places in front of it, which no cube cares about, are
not shown. -/
def display (cover : Cover) : String := cover.render cover.width

end LogicNet.Cover
