import Blockflow.Decimal.Shortest
import Blockflow.Dict
import Blockflow.Text.Quoted

/-!
# JSON values

JSON values that keep the order of members and tell whole numbers from numbers with a fraction.
`Json.shown` is the text that a value has inside a message or an expression.
-/

namespace Blockflow

inductive Json where
  | null
  | bool (value : Bool)
  | int (value : Int)
  | float (value : Binary64)
  | str (value : String)
  | arr (items : List Json)
  | obj (members : List (String × Json))
deriving Inhabited, Repr

namespace Json

/-- The value of a member, if the value is an object that has it. -/
def get? (key : String) : Json → Option Json
  | .obj members => Dict.get? key members
  | _ => none

/-- A text or null. -/
def ofText? : Option String → Json
  | some s => .str s
  | none => .null

/-- A list of texts. -/
def ofTexts (texts : List String) : Json := .arr (texts.map .str)

/-- The kind of a value. -/
def typeName : Json → String
  | .null => "NoneType"
  | .bool _ => "bool"
  | .int _ => "int"
  | .float _ => "float"
  | .str _ => "str"
  | .arr _ => "list"
  | .obj _ => "dict"

/-- The text of a whole number. -/
def intText (n : Int) : List Char :=
  if n < 0 then '-' :: Nat.toDigits 10 n.natAbs else Nat.toDigits 10 n.natAbs

/-- The text of a whole number, as a string. -/
def intString (n : Int) : String := String.ofList (intText n)

/-- Does the value count as nothing: null, false, a zero, an empty text, list or object? -/
def isEmpty : Json → Bool
  | .null => true
  | .bool value => !value
  | .int value => value == 0
  | .float value => value.isZero
  | .str value => value.isEmpty
  | .arr items => items.isEmpty
  | .obj members => members.isEmpty

mutual

/-- How many values are inside of each other. -/
def levels : Json → Nat
  | .arr items => levelsOfItems items + 1
  | .obj members => levelsOfMembers members + 1
  | _ => 1

def levelsOfItems : List Json → Nat
  | [] => 0
  | item :: rest => max (levels item) (levelsOfItems rest)

def levelsOfMembers : List (String × Json) → Nat
  | [] => 0
  | (_, value) :: rest => max (levels value) (levelsOfMembers rest)

end

mutual

/-- How many lists are directly inside of each other. -/
def listDepth : Json → Nat
  | .arr items => listDepthOfItems items + 1
  | _ => 0

def listDepthOfItems : List Json → Nat
  | [] => 0
  | item :: rest => max (listDepth item) (listDepthOfItems rest)

end

mutual

/-- The value as it is shown inside a list or an object: texts in quotes. -/
def shown : Json → String
  | .null => "None"
  | .bool true => "True"
  | .bool false => "False"
  | .int value => intString value
  | .float value => DecimalStyle.message.write value
  | .str value => Text.quoted value
  | .arr items => "[" ++ ", ".intercalate (shownItems items) ++ "]"
  | .obj members => "\x7b" ++ ", ".intercalate (shownMembers members) ++ "\x7d"

def shownItems : List Json → List String
  | [] => []
  | item :: rest => shown item :: shownItems rest

def shownMembers : List (String × Json) → List String
  | [] => []
  | (key, value) :: rest => (Text.quoted key ++ ": " ++ shown value) :: shownMembers rest

end

/-- The value as it is shown on its own: a text stands for itself. -/
def plain : Json → String
  | .str value => value
  | value => shown value

end Json

end Blockflow
