import Blockflow.Json.Basic

/-!
# Writing JSON

A value is written on one line or over several lines, indented by two. Characters beyond ASCII
stand for themselves; only quotes, backslashes and control characters are escaped. The last-named
characters have a short form or are written by their code point.
-/

namespace Blockflow.Json

/-- How a value is written. -/
structure Style where
  /-- is every item on a line of its own? -/
  multiline : Bool
  decimals : DecimalStyle

/-- All on one line, without spaces. -/
def Style.compact : Style := ⟨false, .message⟩

/-- Every item on a line of its own, indented by two: the form of stored files. -/
def Style.file : Style := ⟨true, .file⟩

/-- One character of a text between double quotes. -/
def escape (c : Char) : List Char :=
  if c = '"' then ['\\', '"']
  else if c = '\\' then ['\\', '\\']
  else if c = '\x08' then ['\\', 'b']
  else if c = '\t' then ['\\', 't']
  else if c = '\n' then ['\\', 'n']
  else if c = '\x0c' then ['\\', 'f']
  else if c = '\r' then ['\\', 'r']
  else if c.toNat < 0x20 then '\\' :: 'u' :: Text.hexDigits 4 c.toNat
  else [c]

def writeString (s : String) : List Char := '"' :: s.toList.flatMap escape ++ ['"']

/-- A number that is not finite has no JSON form and is written as null. -/
def writeFloat (style : Style) : Binary64 → List Char
  | .finite negative mantissa exponent =>
    (style.decimals.write (.finite negative mantissa exponent)).toList
  | _ => ['n', 'u', 'l', 'l']

/-- The start of a line at a level of indentation. -/
def newline (style : Style) (level : Nat) : List Char :=
  if style.multiline then '\n' :: List.replicate (2 * level) ' ' else []

/-- What stands between a key and its value. -/
def separator (style : Style) : List Char := if style.multiline then [':', ' '] else [':']

mutual

def write (style : Style) (level : Nat) : Json → List Char
  | .null => ['n', 'u', 'l', 'l']
  | .bool true => ['t', 'r', 'u', 'e']
  | .bool false => ['f', 'a', 'l', 's', 'e']
  | .int value => intText value
  | .float value => writeFloat style value
  | .str value => writeString value
  | .arr [] => ['[', ']']
  | .arr (item :: rest) =>
    '[' :: newline style (level + 1) ++ write style (level + 1) item ++
      writeItems style (level + 1) rest ++ newline style level ++ [']']
  | .obj [] => ['\x7b', '\x7d']
  | .obj ((key, value) :: rest) =>
    '\x7b' :: newline style (level + 1) ++ writeString key ++ separator style ++
      write style (level + 1) value ++ writeMembers style (level + 1) rest ++
      newline style level ++ ['\x7d']

/-- The items after the first one. -/
def writeItems (style : Style) (level : Nat) : List Json → List Char
  | [] => []
  | item :: rest =>
    ',' :: newline style level ++ write style level item ++ writeItems style level rest

/-- The members after the first one. -/
def writeMembers (style : Style) (level : Nat) : List (String × Json) → List Char
  | [] => []
  | (key, value) :: rest =>
    ',' :: newline style level ++ writeString key ++ separator style ++
      write style level value ++ writeMembers style level rest

end

/-! ## What is read back -/

mutual

/-- The value that a written value is read back as: null stands where a number is not finite. -/
def readBack : Json → Json
  | .float (.finite negative mantissa exponent) => .float (.finite negative mantissa exponent)
  | .float _ => .null
  | .arr items => .arr (readBackItems items)
  | .obj members => .obj (readBackMembers members)
  | value => value

def readBackItems : List Json → List Json
  | [] => []
  | item :: rest => readBack item :: readBackItems rest

def readBackMembers : List (String × Json) → List (String × Json)
  | [] => []
  | (key, value) :: rest => (key, readBack value) :: readBackMembers rest

end

/-- The text of a value. -/
def render (style : Style) (value : Json) : String := String.ofList (write style 0 value)

end Blockflow.Json
