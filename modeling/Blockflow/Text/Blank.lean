/-!
# Blank characters

A character is blank when it separates words: the Unicode white space together with the four
information separators U+001C to U+001F. Stripping and cutting into words go by this class.
-/

namespace Blockflow.Text

/-- Does the code point lie in one of the closed ranges of the table? -/
def inRanges (table : List (Nat × Nat)) (n : Nat) : Bool :=
  table.any fun range => range.1 ≤ n && n ≤ range.2

/-- The blank code points, as closed ranges in increasing order. -/
def blankRanges : List (Nat × Nat) :=
  [(0x09, 0x0D), (0x1C, 0x20), (0x85, 0x85), (0xA0, 0xA0), (0x1680, 0x1680), (0x2000, 0x200A),
   (0x2028, 0x2029), (0x202F, 0x202F), (0x205F, 0x205F), (0x3000, 0x3000)]

def isBlank (c : Char) : Bool := inRanges blankRanges c.toNat

/-- The text without its leading blanks. -/
def stripStart (s : List Char) : List Char := s.dropWhile isBlank

/-- The text without its trailing blanks. -/
def stripEnd (s : List Char) : List Char := (s.reverse.dropWhile isBlank).reverse

/-- The text without the blanks at both ends. -/
def strip (s : List Char) : List Char := stripEnd (stripStart s)

/-- The string without the blanks at both ends. -/
def trim (s : String) : String := String.ofList (strip s.toList)

/-- Is there nothing but blanks in the text? -/
def allBlank (s : List Char) : Bool := s.all isBlank

/-- The maximal runs of characters that are not blank, in order. -/
def words : List Char → List (List Char)
  | [] => []
  | c :: rest =>
    if isBlank c then words rest
    else
      match rest with
      | [] => [[c]]
      | d :: _ =>
        if isBlank d then [c] :: words rest
        else
          match words rest with
          | [] => [[c]]
          | word :: others => (c :: word) :: others

end Blockflow.Text
