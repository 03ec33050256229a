import Blockflow.Issue

/-!
# Values of fields

What is entered into the fields of a block is text, or is turned into text. Only an object stays
what it is. A valid graph has no objects in its fields; where a graph is not checked, an object
takes the place of a text up to the point where something is asked of it that only a text has.
-/

namespace Blockflow

/-- The value of a field of a block: a text, or an object that was given in its place. -/
inductive FieldValue where
  | text (value : String)
  | object (members : Dict Json)

namespace FieldValue

mutual

/-- The text of an item of a list. -/
def itemText : Json → String
  | .bool true => "true"
  | .bool false => "false"
  | .str s => Text.trim s
  | .arr items => ", ".intercalate (itemTexts items)
  | value => value.shown

def itemTexts : List Json → List String
  | [] => []
  | item :: rest => itemText item :: itemTexts rest

end

/-- The field value that a JSON value stands for; null stands for none. -/
def ofJson? : Json → Option FieldValue
  | .null => none
  | .obj members => some (.object members)
  | value => some (.text (itemText value))

def toJson : FieldValue → Json
  | .text s => .str s
  | .object members => .obj members

/-- The value that counts: a field that is not given and an empty object count as the empty text. -/
def given : Option FieldValue → FieldValue
  | none | some (.object []) => .text ""
  | some value => value

def isObject : FieldValue → Bool
  | .text _ => false
  | .object _ => true

/-- The value as it is shown: a text stands for itself. -/
def shown : FieldValue → String
  | .text s => s
  | .object members => (Json.obj members).shown

/-- The value as an expression or as a list that is to be cut. -/
def expression : FieldValue → Except Defect String
  | .text s => .ok s
  | .object _ => .error (.notText "dict")

/-- The value as a text that is to be searched. -/
def searched : FieldValue → Except Defect String
  | .text s => .ok s
  | .object _ => .error .notSearchable

/-- The value as a key that is to be looked up. -/
def key : FieldValue → Except Defect String
  | .text s => .ok s
  | .object _ => .error .notKey

end FieldValue

end Blockflow
