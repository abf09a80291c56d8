import LogicNet.Text.Unprintable

/-!
Quoted characters and texts, as they stand in messages. A character is written between apostrophes
and a text between double quotes; the mark in use, the backslash and the characters without a
visible form are escaped, and every other character stands for itself.
-/

namespace LogicNet.Text

/-- The escape by code point: its digits in base sixteen, lower case, without leading zeros. -/
def codePoint (c : Char) : List Char :=
  ['\\', 'u', '\x7b'] ++ Nat.toDigits 16 c.toNat ++ ['\x7d']

/-- One character between marks of the kind `mark`. -/
def escape (mark c : Char) : List Char :=
  if c = '\x00' then ['\\', '0']
  else if c = '\t' then ['\\', 't']
  else if c = '\r' then ['\\', 'r']
  else if c = '\n' then ['\\', 'n']
  else if c = '\\' || c = mark then ['\\', c]
  else if isUnprintable c then codePoint c
  else [c]

/-- A character between apostrophes. -/
def quoteChar (c : Char) : String :=
  String.ofList (['\x27'] ++ escape '\x27' c ++ ['\x27'])

/-- A text between double quotes. -/
def quote (text : String) : String :=
  String.ofList (['\x22'] ++ text.toList.flatMap (escape '\x22') ++ ['\x22'])

end LogicNet.Text
