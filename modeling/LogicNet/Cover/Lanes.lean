import LogicNet.Cover.Basic

/-!
Covers on sixty-four assignments at once. The values of an input are one word, one lane for each
assignment, and the answer is the word of the values of the function.
-/

namespace LogicNet

/-- The lanes in which the literal of a cube at `place` holds, given the word of that input. -/
def Cube.literalLanes (cube : Cube) (place : Nat) (word : Word) : Word :=
  if cube.mask.getLsbD place then
    if cube.bits.getLsbD place then word else ~~~word
  else BitVec.allOnes 64

/-- The lanes whose assignment the cube accepts. Places above those of the inputs hold zero in every
lane, so a cube that demands a one there accepts none. -/
def Cube.lanes (cube : Cube) (words : List Word) : Word :=
  if cube.bits &&& cube.mask &&& ~~~Pattern.low words.length = 0 then
    words.zipIdx.foldl (fun lanes (word, position) =>
      lanes &&& cube.literalLanes (words.length - 1 - position) word) (BitVec.allOnes 64)
  else 0

/-- The lanes that are in `accepted` or whose assignment some cube accepts. Once every lane is, no
further cube is looked at. -/
def Cover.acceptedLanes (words : List Word) (accepted : Word) : List Cube → Word
  | [] => accepted
  | cube :: rest =>
    let accepted := accepted ||| cube.lanes words
    if accepted = BitVec.allOnes 64 then accepted else acceptedLanes words accepted rest

/-- The value of the function in each lane. -/
def Cover.lanes (cover : Cover) (words : List Word) : Word :=
  let accepted := acceptedLanes words 0 cover.cubes
  if cover.polarity then accepted else ~~~accepted

end LogicNet
