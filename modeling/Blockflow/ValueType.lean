import Blockflow.Dict

/-!
# Value types

The types that values of a program have as far as they are known, and the names under which a type
can be declared on a block.
-/

namespace Blockflow

/-- The type of a value; `unknown` when it cannot be told. -/
inductive ValueType where
  | int | float | string | bool | char | unknown
deriving DecidableEq, Repr, Inhabited

namespace ValueType

def name : ValueType → String
  | .int => "int"
  | .float => "float"
  | .string => "string"
  | .bool => "bool"
  | .char => "char"
  | .unknown => "unknown"

/-- All types with their names. -/
def all : List ValueType := [.int, .float, .string, .bool, .char, .unknown]

/-- The type with this name. -/
def ofName? (s : String) : Option ValueType := all.find? (·.name = s)

/-- The type names that can be declared, with the types they stand for. -/
def declarable : Dict ValueType :=
  [("int", .int), ("long", .int), ("float", .float), ("double", .float), ("string", .string),
   ("String", .string), ("str", .string), ("bool", .bool), ("boolean", .bool), ("char", .char)]

/-- The type that a declared type name stands for. -/
def ofDeclared? (s : String) : Option ValueType := declarable.get? s

end ValueType

/-- The types of the names that are visible at some place. -/
abbrev Symbols := Dict ValueType

end Blockflow
