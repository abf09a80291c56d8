/-!
The ordered lists through which a network meets its surroundings. A register contributes an input
(its output, which the network reads) and an output (its next-state input, which the network
drives); the combinational lists hold the primary terminals first and those of registers after.
-/

namespace LogicNet

/-- A list of terminals. `input` and `output` are the combinational ones. -/
inductive Terminal where
  | input | output | primaryInput | primaryOutput | registerOutput | registerInput
  deriving DecidableEq

namespace Terminal

/-- The abbreviation that messages use. -/
def short : Terminal → String
  | input => "ci"
  | output => "co"
  | primaryInput => "pi"
  | primaryOutput => "po"
  | registerOutput => "ro"
  | registerInput => "ri"

/-- What one element of the list is called. -/
def name : Terminal → String
  | input => "combinational input"
  | output => "combinational output"
  | primaryInput => "primary input"
  | primaryOutput => "primary output"
  | registerOutput => "register output"
  | registerInput => "register input"

end Terminal
end LogicNet
