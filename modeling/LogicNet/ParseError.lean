import LogicNet.Pattern
import LogicNet.Text.Quoted

/-!
What can be wrong with the text of a cube or of a truth table, and the wording of it.
-/

namespace LogicNet

/-- Why a text was not accepted. -/
inductive ParseError where
  | invalidCubeChar (text : String) (char : Char)
  | cubeTooWide (width : Nat)
  | invalidTableChar (text : String) (char : Char)
  /-- The number of rows is not a power of two. -/
  | tableLength (length : Nat)
  | tableTooWide (numVars : Nat)
  deriving DecidableEq

/-- The wording of an error. -/
def ParseError.message : ParseError → String
  | invalidCubeChar text char =>
    s!"cover error: invalid character {Text.quoteChar char} in cube {Text.quote text}"
  | cubeTooWide width =>
    s!"cover error: cube has {width} positions; at most {maxFanin} are supported"
  | invalidTableChar text char =>
    s!"cover error: invalid character {Text.quoteChar char} in truth table {Text.quote text}"
  | tableLength length => s!"cover error: truth table length {length} is not a power of two"
  | tableTooWide numVars =>
    s!"cover error: truth table has {numVars} variables; at most {maxTableVars} are supported"

end LogicNet
