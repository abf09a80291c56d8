import LogicNet.Cube.Basic
import LogicNet.ParseError

/-!
The text of a cube: one character for each input, the first input first, `1` or `0` for the value
that the cube demands there and `-` where it demands none. Reading and writing both go through the
list of literals.
-/

namespace LogicNet

/-- What a cube says about one input. -/
inductive Literal where
  | zero | one | free
  deriving DecidableEq

namespace Literal

/-- The character of a literal. -/
def toChar : Literal → Char
  | zero => '0'
  | one => '1'
  | free => '-'

/-- The literal that a character stands for. -/
def ofChar? : Char → Option Literal
  | '0' => some zero
  | '1' => some one
  | '-' => some free
  | _ => none

theorem ofChar?_toChar (literal : Literal) : ofChar? literal.toChar = some literal := by
  cases literal <;> decide

end Literal

namespace Cube

/-- Adds a last input with the given literal. -/
def push (cube : Cube) : Literal → Cube
  | .zero => ⟨cube.bits <<< 1, (cube.mask <<< 1) ||| 1⟩
  | .one => ⟨(cube.bits <<< 1) ||| 1, (cube.mask <<< 1) ||| 1⟩
  | .free => ⟨cube.bits <<< 1, cube.mask <<< 1⟩

/-- The cube over as many inputs as there are literals. -/
def ofLiterals (literals : List Literal) : Cube := literals.foldl push wildcard

/-- What the cube says about the input at a place of the pattern. -/
def literalAt (cube : Cube) (place : Nat) : Literal :=
  if cube.mask.getLsbD place then
    if cube.bits.getLsbD place then .one else .zero
  else .free

/-- The literals over `width` inputs, the first input first. -/
def literals (cube : Cube) (width : Nat) : List Literal :=
  (List.range width).reverse.map cube.literalAt

/-- The text over `width` inputs. -/
def render (cube : Cube) (width : Nat) : String :=
  String.ofList ((cube.literals width).map Literal.toChar)

/-- Reads the text of a cube. A text that is too long is refused for its length, whatever its
characters are, and any other for its first character that is no literal. -/
def parse (text : String) : Except ParseError Cube := do
  let chars := text.toList
  if maxFanin < chars.length then
    throw (.cubeTooWide chars.length)
  let literals ← chars.mapM fun char =>
    match Literal.ofChar? char with
    | some literal => .ok literal
    | none => .error (.invalidCubeChar text char)
  return ofLiterals literals

@[simp] theorem literals_length (cube : Cube) (width : Nat) :
    (cube.literals width).length = width := by
  simp [literals]

end Cube
end LogicNet
