import Blockflow.Expression.Token
import Blockflow.ValueType

/-!
# Types of expressions

The type of a literal, and what can be told of the type of an expression without parsing it.
-/

namespace Blockflow.Expression

open Text Token

/-- The words for truth values. -/
def isTrueWord (s : List Char) : Bool := s = "true".toList || s = "True".toList

def isFalseWord (s : List Char) : Bool := s = "false".toList || s = "False".toList

def isBoolWord (s : List Char) : Bool := isTrueWord s || isFalseWord s

/-- The words for the logical operations. -/
def isLogicWord (s : List Char) : Bool :=
  s = "and".toList || s = "or".toList || s = "not".toList

/-- The operators whose result is a truth value. -/
def isLogicOp (s : List Char) : Bool :=
  ["==", "!=", "<", ">", "<=", ">=", "&&", "||", "!"].any (·.toList = s)

/-- Is the text a text in quotes and nothing else? -/
def isStringLiteral (s : List Char) : Bool :=
  match tokens (strip s) with
  | [t] => t.kind = .string
  | _ => false

/-- A text in single quotes that holds one character, or a backslash and one more, is a character;
every other text in quotes is a string. -/
def quotedType (literal : List Char) : ValueType :=
  match literal with
  | '\x27' :: [_, _] => .char
  | '\x27' :: ['\\', _, _] => .char
  | _ => .string

/-- A number with a point has a fraction. -/
def numberType (digits : List Char) : ValueType :=
  if digits.contains '.' then .float else .int

/-- The type of a single token that is a literal. -/
def tokenType (t : Token) : ValueType :=
  match t.kind with
  | .number => numberType t.text
  | .string => quotedType t.text
  | .name => if isBoolWord t.text then .bool else .unknown
  | _ => .unknown

/-- The type of a single literal, where a number may have a minus sign; `unknown` if the text is no
literal. -/
def literalType (s : List Char) : ValueType :=
  match solid (strip s) with
  | [t] => tokenType t
  | [sign, t] => if sign.text = ['-'] && t.kind = .number then numberType t.text else .unknown
  | _ => .unknown

/-- What the tokens of an expression say about its type: either the type itself, or the types of
its operands and whether one of its operators is a plus. -/
inductive Reading where
  | decided (type : ValueType)
  | operands (types : List ValueType) (plus : Bool)

namespace Reading

def addPlus : Reading → Reading
  | .decided type => .decided type
  | .operands types _ => .operands types true

def addOperand (type : ValueType) : Reading → Reading
  | .decided t => .decided t
  | .operands types plus => .operands (type :: types) plus

end Reading

/-- Does a name before this token stand for something other than the value of a variable? -/
def extendsName : List Token → Bool
  | [] => false
  | t :: _ => t.text = ['('] || t.text = ['.'] || t.text = ['[']

/-- Read tokens other than blanks from left to right, up to the first that decides the type. -/
def readTypes (symbols : Symbols) : List Token → Reading
  | [] => .operands [] false
  | t :: rest =>
    match t.kind with
    | .op =>
      if isLogicOp t.text then .decided .bool
      else if t.text = ['.'] || t.text = ['['] || t.text = ['?'] || t.text = [':', ':'] then
        .decided .unknown
      else if t.text = ['+'] then (readTypes symbols rest).addPlus
      else readTypes symbols rest
    | .name =>
      if isLogicWord t.text then .decided .bool
      else if extendsName rest then .decided .unknown
      else if isBoolWord t.text then (readTypes symbols rest).addOperand .bool
      else
        (readTypes symbols rest).addOperand
          ((symbols.get? (String.ofList t.text)).getD .unknown)
    | .number => (readTypes symbols rest).addOperand (numberType t.text)
    | .string => (readTypes symbols rest).addOperand (quotedType t.text)
    | .space | .other => .decided .unknown

/-- The type of an operation over operands of these types: adding to a string gives a string, and
whole numbers widen to numbers with a fraction. -/
def combine (types : List ValueType) (plus : Bool) : ValueType :=
  match types with
  | [] => .unknown
  | [type] => type
  | types =>
    if types.contains .string && plus then .string
    else if types.contains .unknown then .unknown
    else if types.all (· = .int) then .int
    else if types.all fun t => t = .int || t = .float then .float
    else .unknown

/-- The type of an expression as far as it can be told. Comparisons and logic give truth values;
nothing is told of calls, members and elements. -/
def inferType (symbols : Symbols) (s : List Char) : ValueType :=
  match readTypes symbols (solid s) with
  | .decided type => type
  | .operands types plus => combine types plus

/-- The type of an expression text. -/
def infer (symbols : Symbols) (s : String) : ValueType := inferType symbols s.toList

/-- The type that all values of a list have: the one they share, or a number with a fraction if they
are numbers of both kinds. -/
def commonType (types : List ValueType) : ValueType :=
  match types with
  | [] => .unknown
  | type :: rest =>
    if rest.all (· = type) then type
    else if types.all fun t => t = .int || t = .float then .float
    else .unknown

end Blockflow.Expression
