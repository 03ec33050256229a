import Blockflow.Expression.Typing

/-!
# Lists and sums

Cutting an expression at the commas or at the plus signs that stand outside of brackets and quotes.
-/

namespace Blockflow.Expression

open Text Token

/-- The entries of a list between commas, stripped; empty entries are left out. -/
def listItems (s : List Char) : List (List Char) := (pieces [','] s).filter (· ≠ [])

/-- The entries of a list between commas. -/
def splitList (s : String) : List String := (listItems s.toList).map String.ofList

/-- Texts joined with a plus sign between them. -/
def joinPlus : List (List Char) → List Char
  | [] => []
  | [piece] => piece
  | piece :: rest => piece ++ [' ', '+', ' '] ++ joinPlus rest

/-- Join the pieces before the first text in quotes to one piece: they are added before anything is
appended to a text. There is no answer if no piece is a text in quotes. -/
def joinLeading? (parts : List (List Char)) : Option (List (List Char)) :=
  match parts.dropWhile (!isStringLiteral ·) with
  | [] => none
  | rest =>
    match parts.takeWhile (!isStringLiteral ·) with
    | [] => some rest
    | leading => some (joinPlus leading :: rest)

/-- The pieces of a sum that builds a text, if the expression is one: at least two operands, none of
them empty, and one a text in quotes. -/
def concatPieces? (s : List Char) : Option (List (List Char)) :=
  let parts := pieces ['+'] (strip s)
  if parts.length < 2 || parts.any (· = []) then none else joinLeading? parts

/-- The pieces of a sum that builds a text, if the expression is one. -/
def splitConcat? (s : String) : Option (List String) :=
  (concatPieces? s.toList).map (·.map String.ofList)

end Blockflow.Expression
