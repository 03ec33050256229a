import Blockflow.Expression.Spelling
import Blockflow.Numeral

/-!
# Headers of loops

The three parts of a counting loop as they are typed: an initialiser such as `int i = 0`, a
condition such as `i < 10` and a step such as `i++`. A `Counter` is a header that counts through a
range of whole numbers.
-/

namespace Blockflow.Expression

open Text Token

/-! ## Parts of a header -/

/-- A variable name at the start of a text and what follows it. -/
def takeVariable : List Char → Option (List Char × List Char)
  | [] => none
  | c :: rest =>
    if isNameStart c then some (c :: rest.takeWhile isWord, rest.dropWhile isWord) else none

/-- The text after an equals sign or a comparison, stripped. It has to stand on one line. Where
there is nothing but blanks, the last one that is no line break is the text. -/
def tailText? (s : List Char) : Option (List Char) :=
  match strip s with
  | [] => (s.filter (· ≠ '\n')).getLast?.map ([·])
  | text => if text.contains '\n' then none else some text

/-- The text after the blanks and the sign at the start. -/
def afterSign? (sign : List Char) (s : List Char) : Option (List Char) :=
  let rest := stripStart s
  if sign.isPrefixOf rest then some (rest.drop sign.length) else none

/-! ## Initialisers -/

/-- The initialiser of a loop: a variable, its first value and the type that is declared. -/
structure LoopInit where
  declared : Option String
  name : String
  value : String
deriving DecidableEq, Repr

namespace LoopInit

/-- May the character stand in a type name after its first one? -/
def isTypeChar (c : Char) : Bool := isWord c || c = ':' || c = '<' || c = '>'

/-- A type name at the start of a text, and what follows the blanks after it. -/
def takeType : List Char → Option (List Char × List Char)
  | [] => none
  | c :: rest =>
    match rest.dropWhile isTypeChar with
    | [] => none
    | d :: more =>
      if isNameStart c && isBlank d then some (c :: rest.takeWhile isTypeChar, stripStart more)
      else none

/-- A variable, an equals sign and a value. -/
def assignment? (s : List Char) : Option (List Char × List Char) := do
  let (name, rest) ← takeVariable s
  let value ← tailText? (← afterSign? ['='] rest)
  return (name, value)

/-- An assignment after a type name. The word `return` is no type name. -/
def typed? (s : List Char) : Option (List Char × List Char × List Char) := do
  let (type, rest) ← takeType s
  let (name, value) ← assignment? rest
  if type = "return".toList then none else return (type, name, value)

/-- Read an initialiser, with or without a type name. -/
def parse? (s : String) : Option LoopInit :=
  let text := stripStart s.toList
  match typed? text with
  | some (type, name, value) =>
    some ⟨some (String.ofList type), String.ofList name, String.ofList value⟩
  | none =>
    (assignment? text).map fun (name, value) =>
      ⟨none, String.ofList name, String.ofList value⟩

end LoopInit

/-! ## Conditions -/

inductive Comparison where
  | less | lessEqual | greater | greaterEqual
deriving DecidableEq, Repr

namespace Comparison

/-- Does the comparison bound the variable from above? -/
def isUpper : Comparison → Bool
  | .less | .lessEqual => true
  | .greater | .greaterEqual => false

/-- The comparison at the start of a text, and the rest. -/
def take : List Char → Option (Comparison × List Char)
  | '<' :: '=' :: rest => some (.lessEqual, rest)
  | '<' :: rest => some (.less, rest)
  | '>' :: '=' :: rest => some (.greaterEqual, rest)
  | '>' :: rest => some (.greater, rest)
  | _ => none

end Comparison

/-- A condition that compares a variable with a bound. -/
structure LoopCondition where
  name : String
  comparison : Comparison
  bound : String
deriving DecidableEq, Repr

/-- Read a condition. -/
def LoopCondition.parse? (s : String) : Option LoopCondition := do
  let (name, rest) ← takeVariable (stripStart s.toList)
  let (comparison, rest) ← Comparison.take (stripStart rest)
  let bound ← tailText? rest
  return ⟨String.ofList name, comparison, String.ofList bound⟩

/-- Is there no comparison, logic, choice or assignment in the bound? The comparison of the header
would apply to a part of such a bound only. It does so for bounds with `&`, `|`, `^` or a comma as
well, and these are let through. -/
def isSimpleBound (s : List Char) : Bool :=
  (tokens s).all fun t =>
    match t.kind with
    | .op => !(isLogicOp t.text || t.text = ['?'] || t.text = ['='])
    | .name => !isLogicWord t.text
    | _ => true

/-! ## Steps -/

/-- A step that adds a constant to a variable. -/
structure LoopStep where
  name : String
  amount : Int
deriving DecidableEq, Repr

namespace LoopStep

/-- A step as it is written: the variable, whether something is taken away from it, and the digits
of the amount. -/
structure Written where
  name : List Char
  down : Bool
  digits : List Char
deriving DecidableEq, Repr

/-- The digits of a text of digits with blanks around them. -/
def amount? (s : List Char) : Option (List Char) :=
  let text := stripStart s
  let digits := text.takeWhile isDigit
  if digits.isEmpty || !allBlank (text.dropWhile isDigit) then none else some digits

/-- A variable with the sign before it, and nothing else but blanks. -/
def before? (sign s : List Char) : Option (List Char) := do
  let (name, rest) ← takeVariable (stripStart (← afterSign? sign s))
  if allBlank rest then return name else none

/-- A variable with the sign after it, and nothing else but blanks. -/
def after? (sign s : List Char) : Option (List Char) := do
  let (name, rest) ← takeVariable (stripStart s)
  if allBlank (← afterSign? sign rest) then return name else none

/-- A variable, the sign, and a number. -/
def update? (sign : List Char) (down : Bool) (s : List Char) : Option Written := do
  let (name, rest) ← takeVariable (stripStart s)
  return ⟨name, down, ← amount? (← afterSign? sign rest)⟩

/-- The sum that starts with the given variable: what is added to it. -/
def addend? (name s : List Char) : Option Written := do
  let rest ← afterSign? name s
  match stripStart rest with
  | '+' :: more => return ⟨name, false, ← amount? more⟩
  | '-' :: more => return ⟨name, true, ← amount? more⟩
  | _ => none

/-- A variable that is given its own value plus or minus a number. -/
def reassign? (s : List Char) : Option Written := do
  let (name, rest) ← takeVariable (stripStart s)
  addend? name (← afterSign? ['='] rest)

/-- The forms of a step in the order in which they are tried: `++i` and `i++`, `--i` and `i--`,
`i += k`, `i -= k`, and `i = i + k` or `i = i - k`. -/
def read? (s : List Char) : Option Written :=
  ((before? ['+', '+'] s).map (⟨·, false, ['1']⟩)) <|>
  ((after? ['+', '+'] s).map (⟨·, false, ['1']⟩)) <|>
  ((before? ['-', '-'] s).map (⟨·, true, ['1']⟩)) <|>
  ((after? ['-', '-'] s).map (⟨·, true, ['1']⟩)) <|>
  update? ['+', '='] false s <|> update? ['-', '='] true s <|> reassign? s

/-- The step that is written. -/
def ofWritten (w : Written) : Except NumeralError LoopStep := do
  let n ← Numeral.read w.digits
  return ⟨String.ofList w.name, if w.down then -(n : Int) else n⟩

/-- Read a step. -/
def parse (s : String) : Except NumeralError (Option LoopStep) :=
  match read? s.toList with
  | none => .ok none
  | some w => (ofWritten w).map some

/-- Is there a sign for adding to or subtracting from a variable in the text? -/
def hasUpdateSign : List Char → Bool
  | [] => false
  | [_] => false
  | c :: d :: rest => ((c = '+' || c = '-') && d = '=') || hasUpdateSign (d :: rest)

/-- The step as a statement of its own in the spelling with words, which has no `++`. -/
def statement (s : String) : String :=
  match parse s with
  | .ok (some step) =>
    if hasUpdateSign s.toList then spell .words s
    else
      step.name ++ (if 0 < step.amount then " += " else " -= ") ++
        Json.intString step.amount.natAbs
  | _ => spell .words s

end LoopStep

/-! ## Counters -/

/-- A header that counts: from `start` up or down to `stop`, which is not reached, by `amount`. -/
structure Counter where
  name : String
  start : String
  stop : String
  amount : Int
deriving DecidableEq, Repr

namespace Counter

/-- The bound that comes after an inclusive one, counting by `delta`. -/
def pastBound (bound : String) (delta : Int) : Except NumeralError String :=
  if literalType bound.toList = .int then do
    Numeral.write ((← Numeral.readSigned bound) + delta)
  else
    .ok (bound ++ (if 0 < delta then " + 1" else " - 1"))

/-- Does a step by this amount lead towards the bound of the comparison? -/
def leadsTo (comparison : Comparison) (amount : Int) : Bool :=
  if comparison.isUpper then 0 < amount else amount < 0

/-- The counter of a header that is one: the three parts name one variable, and the step leads
towards the bound. -/
def ofParts (init : LoopInit) (condition : LoopCondition) (step : LoopStep) :
    Except NumeralError (Option Counter) :=
  if isSimpleBound condition.bound.toList && init.name = condition.name &&
      condition.name = step.name && leadsTo condition.comparison step.amount then
    match condition.comparison with
    | .less | .greater =>
      .ok (some ⟨init.name, init.value, condition.bound, step.amount⟩)
    | .lessEqual => do
      return some ⟨init.name, init.value, ← pastBound condition.bound 1, step.amount⟩
    | .greaterEqual => do
      return some ⟨init.name, init.value, ← pastBound condition.bound (-1), step.amount⟩
  else .ok none

/-- The counter that a header is, if it is one. The step is read whatever the other parts are. -/
def parse (init condition step : String) : Except NumeralError (Option Counter) := do
  match LoopInit.parse? init, LoopCondition.parse? condition, ← LoopStep.parse step with
  | some init, some condition, some step => ofParts init condition step
  | _, _, _ => return none

end Counter

end Blockflow.Expression
