import Blockflow.Diagram.Basic
import Blockflow.Json.Reader
import Blockflow.Text.Blank

/-!
# Reading diagrams

A diagram is read from a JSON value together with everything that is wrong with its form: a
`Checked` value is either a value or the list of all faults, in the order of the fields of the
schema. Nothing is converted, except that the coordinates of a block may be whole numbers, truth
values or texts.
-/

namespace Blockflow

/-- One step into a JSON value. -/
inductive PathStep where
  | key (name : String)
  | index (n : Nat)
deriving DecidableEq, Repr

/-- What is wrong at some place of a JSON value. -/
inductive SchemaFaultKind where
  | missing | notString | notList | notObject | notNumber | unreadableNumber | notChoice
  /-- a record was expected -/
  | notRecord
deriving DecidableEq, Repr

/-- The word for a kind of fault. -/
def SchemaFaultKind.code : SchemaFaultKind → String
  | .missing => "missing"
  | .notString => "string_type"
  | .notList => "list_type"
  | .notObject => "dict_type"
  | .notNumber => "float_type"
  | .unreadableNumber => "float_parsing"
  | .notChoice => "enum"
  | .notRecord => "model_type"

structure SchemaFault where
  path : List PathStep
  kind : SchemaFaultKind
deriving DecidableEq, Repr

def PathStep.toJson : PathStep → Json
  | .key name => .str name
  | .index n => .int n

/-- The JSON form of a fault, with the word that stands for its kind. -/
def SchemaFault.toJson (f : SchemaFault) (code : String) : Json :=
  .obj [("loc", .arr (f.path.map PathStep.toJson)), ("type", .str code)]

/-- A value, or all that is wrong with what it should be read from. -/
abbrev Checked (α : Type) := Except (List SchemaFault) α

namespace Checked

/-- Both values, or the faults of both. -/
def both {α β : Type} : Checked α → Checked β → Checked (α × β)
  | .ok a, .ok b => .ok (a, b)
  | .ok _, .error e => .error e
  | .error e, .ok _ => .error e
  | .error e, .error f => .error (e ++ f)

/-- All values, or the faults of all. -/
def all {α : Type} : List (Checked α) → Checked (List α)
  | [] => .ok []
  | first :: rest => (both first (all rest)).map fun (a, as) => a :: as

def fault {α : Type} (path : List PathStep) (kind : SchemaFaultKind) : Checked α :=
  .error [⟨path, kind⟩]

end Checked

namespace Schema

open Checked

/-! ## Fields -/

/-- Read a value that is found at a path. -/
abbrev Reader (α : Type) := List PathStep → Json → Checked α

def text : Reader String
  | _, .str s => .ok s
  | path, _ => fault path .notString

def text? : Reader (Option String)
  | _, .null => .ok none
  | path, value => (text path value).map some

def list {α : Type} (item : Reader α) : Reader (List α)
  | path, .arr items => all (items.mapIdx fun i value => item (path ++ [.index i]) value)
  | path, _ => fault path .notList

def dict {α : Type} (item : Reader α) : Reader (Dict α)
  | path, .obj members =>
    all (members.map fun (key, value) =>
      (item (path ++ [.key key]) value).map fun a => (key, a))
  | path, _ => fault path .notObject

def anything : Reader Json
  | _, value => .ok value

/-- Read a field that must be there. -/
def required {α : Type} (members : Dict Json) (path : List PathStep) (key : String)
    (reader : Reader α) : Checked α :=
  match members.get? key with
  | some value => reader (path ++ [.key key]) value
  | none => fault (path ++ [.key key]) .missing

/-- Read a field that may be left out. -/
def optional {α : Type} (members : Dict Json) (path : List PathStep) (key : String)
    (absent : α) (reader : Reader α) : Checked α :=
  match members.get? key with
  | some value => reader (path ++ [.key key]) value
  | none => .ok absent

/-- Read the members of a record. -/
def record {α : Type} (path : List PathStep) (value : Json)
    (fields : Dict Json → Checked α) : Checked α :=
  match value with
  | .obj members => fields members
  | _ => fault path .notRecord

/-! ## Coordinates -/

/-- The blanks that may stand around a number in a text: Unicode white space. -/
def isOuterBlank (c : Char) : Bool :=
  Text.isBlank c && !(0x1C ≤ c.toNat && c.toNat ≤ 0x1F)

/-- A number without its sign: digits with or without a point, then perhaps an exponent; or the name
of an infinity or of an undefined number, in letters of either case. -/
def magnitude? (negative : Bool) (s : List Char) : Option Binary64 :=
  let name := String.ofList (s.map Char.toLower)
  if name = "inf" || name = "infinity" then some (.infinite negative)
  else if name = "nan" then some .undefined
  else
    let whole := s.takeWhile Char.isDigit
    let rest := s.drop whole.length
    let (fraction, rest) := match rest with
      | '.' :: more => (more.takeWhile Char.isDigit, more.dropWhile Char.isDigit)
      | more => ([], more)
    if whole.isEmpty && fraction.isEmpty then none
    else
      let digits := Json.readNat (whole ++ fraction)
      match rest, Json.takeExponent rest with
      | [], _ => some (.ofDecimal negative digits (-fraction.length))
      | rest, some (power, size) =>
        if rest.length = size then some (.ofDecimal negative digits (power - fraction.length))
        else none
      | _, none => none

/-- A number with a sign that may be left out. -/
def number? : List Char → Option Binary64
  | '-' :: rest => magnitude? true rest
  | '+' :: rest => magnitude? false rest
  | s => magnitude? false s

/-- Do two underscores stand side by side? -/
def hasDoubleUnderscore : List Char → Bool
  | '_' :: '_' :: _ => true
  | _ :: rest => hasDoubleUnderscore rest
  | [] => false

/-- The number that a text writes. Blanks may stand around it, or single underscores inside. -/
def textNumber? (s : List Char) : Option Binary64 :=
  let inner := ((s.dropWhile isOuterBlank).reverse.dropWhile isOuterBlank).reverse
  match number? inner with
  | some x => some x
  | none =>
    if s.head? = some '_' || s.getLast? = some '_' || hasDoubleUnderscore s || !s.contains '_' then
      none
    else number? (s.filter (· ≠ '_'))

/-- Read a coordinate. -/
def coordinate : Reader Binary64
  | _, .float x => .ok x
  | path, .int n =>
    match Binary64.ofInt n with
    | .finite negative mantissa exponent => .ok (.finite negative mantissa exponent)
    | _ => fault path .notNumber
  | _, .bool b => .ok (.ofInt (if b then 1 else 0))
  | path, .str s =>
    match textNumber? s.toList with
    | some x => .ok x
    | none => fault path .unreadableNumber
  | path, _ => fault path .notNumber

/-! ## Diagrams -/

def node : Reader DrawnNode
  | path, value =>
    record path value fun members =>
      (both (required members path "id" text)
        (both (required members path "type" text)
          (both (optional members path "data" [] (dict anything))
            (optional members path "position" [] (dict coordinate))))).map
      fun (id, type, data, position) => ⟨id, type, data, position⟩

/-- Read a handle, which has two keys; the first one wins. -/
def handle (members : Dict Json) (path : List PathStep) (key other : String) :
    Checked (Option String) :=
  if members.has key then optional members path key none text?
  else optional members path other none text?

def edge : Reader DrawnEdge
  | path, value =>
    record path value fun members =>
      (both (optional members path "id" "" text)
        (both (required members path "source" text)
          (both (required members path "target" text)
            (both (handle members path "sourceHandle" "source_handle")
              (handle members path "targetHandle" "target_handle"))))).map
      fun (id, source, target, sourceHandle, targetHandle) =>
        ⟨id, source, target, sourceHandle, targetHandle⟩

def diagram : Reader Diagram
  | path, value =>
    record path value fun members =>
      (both (optional members path "nodes" [] (list node))
        (optional members path "edges" [] (list edge))).map
      fun (nodes, edges) => ⟨nodes, edges⟩

end Schema

/-- The diagram that a JSON value writes. -/
def Diagram.ofJson (value : Json) : Checked Diagram := Schema.diagram [] value

end Blockflow
