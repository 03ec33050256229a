import Blockflow.Numeral

/-!
# Reading JSON

A text is first cut into lexemes, each with its place, and the lexemes are then read from left to
right with a stack of the lists and objects that are still open. Both passes end because they use up
their input. When a key comes twice in an object, the later value takes the earlier place.
-/

namespace Blockflow.Json

/-- Why a text is not JSON. -/
inductive Reason where
  | value | key | colon | comma | extra | unterminated | control | escape | unicodeEscape
  /-- the text starts with a byte order mark -/
  | byteOrderMark
  /-- a whole number has too many digits -/
  | number (error : NumeralError)
  /-- too many lists and objects are open where one more starts -/
  | tooDeepList | tooDeepObject
deriving DecidableEq, Repr

def Reason.message : Reason → String
  | .value => "Expecting value"
  | .key => "Expecting property name enclosed in double quotes"
  | .colon => "Expecting ':' delimiter"
  | .comma => "Expecting ',' delimiter"
  | .extra => "Extra data"
  | .unterminated => "Unterminated string starting at"
  | .control => "Invalid control character at"
  | .escape => "Invalid \\escape"
  | .unicodeEscape => "Invalid \\uXXXX escape"
  | .byteOrderMark => "Unexpected UTF-8 BOM (decode using utf-8-sig)"
  | .number error => error.message
  | .tooDeepList =>
    "maximum recursion depth exceeded while decoding a JSON array from a unicode string"
  | .tooDeepObject =>
    "maximum recursion depth exceeded while decoding a JSON object from a unicode string"

/-- What is wrong with a text, and at which character. -/
structure ReadError where
  reason : Reason
  offset : Nat
deriving DecidableEq, Repr

/-- The error with the line and the column of its place in the text. -/
def ReadError.message (e : ReadError) (text : List Char) : String :=
  let before := text.take e.offset
  let line := before.count '\n' + 1
  let column := (before.reverse.takeWhile (· ≠ '\n')).length + 1
  e.reason.message ++ ": line " ++ intString line ++ " column " ++ intString column ++
    " (char " ++ intString e.offset ++ ")"

/-- The smallest unit of a text that is read at once. A text in quotes or a number that is faulty
keeps its error; any other faulty character is `junk`. -/
inductive Lexeme where
  | openBrace | closeBrace | openBracket | closeBracket | comma | colon
  | str (value : String)
  | scalar (value : Json)
  | badString (error : ReadError)
  | badNumber (error : NumeralError)
  | junk

/-! ## Texts in quotes -/

/-- The number that four hexadecimal digits write. -/
def hexQuad? (a b c d : Char) : Option Nat := do
  return 0x1000 * (← Text.hexValue? a) + 0x100 * (← Text.hexValue? b) +
    0x10 * (← Text.hexValue? c) + (← Text.hexValue? d)

/-- The character of a one-letter escape. -/
def simpleEscape? (c : Char) : Option Char :=
  if c = '"' || c = '\\' || c = '/' then some c
  else if c = 'b' then some '\x08'
  else if c = 'f' then some '\x0c'
  else if c = 'n' then some '\n'
  else if c = 'r' then some '\r'
  else if c = 't' then some '\t'
  else none

/-- The code values up to the closing quote, and how many characters there are up to and with it.
`start` is the place of the opening quote and `here` the place of the first character. -/
def readString (start here : Nat) : List Char → Except ReadError (List Nat × Nat)
  | [] => .error ⟨.unterminated, start⟩
  | c :: rest =>
    if c = '"' then .ok ([], 1)
    else if c = '\\' then
      match rest with
      | [] => .error ⟨.unterminated, start⟩
      | 'u' :: w :: x :: y :: z :: more =>
        match hexQuad? w x y z, more with
        | some n, _ :: _ => do
          let (codes, width) ← readString start (here + 6) more
          return (n :: codes, width + 6)
        | _, _ => .error ⟨.unicodeEscape, here + 1⟩
      | d :: more =>
        if d = 'u' then .error ⟨.unicodeEscape, here + 1⟩
        else
          match simpleEscape? d with
          | some e => do
            let (codes, width) ← readString start (here + 2) more
            return (e.toNat :: codes, width + 2)
          | none => .error ⟨.escape, here⟩
    else if c.toNat < 0x20 then .error ⟨.control, here⟩
    else do
      let (codes, width) ← readString start (here + 1) rest
      return (c.toNat :: codes, width + 1)

/-- The characters of a list of code values, where a character beyond the first plane may come as
a pair of surrogates. A surrogate on its own becomes the replacement character. -/
def joinSurrogates : List Nat → List Char
  | [] => []
  | [n] => [if 0xD800 ≤ n && n < 0xE000 then '�' else Char.ofNat n]
  | n :: m :: rest =>
    if 0xD800 ≤ n && n < 0xDC00 && 0xDC00 ≤ m && m < 0xE000 then
      Char.ofNat (0x10000 + 0x400 * (n - 0xD800) + (m - 0xDC00)) :: joinSurrogates rest
    else if 0xD800 ≤ n && n < 0xE000 then '�' :: joinSurrogates (m :: rest)
    else Char.ofNat n :: joinSurrogates (m :: rest)

/-! ## Numbers -/

/-- The number that a run of ASCII digits writes. -/
def readNat (digits : List Char) : Nat := digits.foldl (fun n c => 10 * n + (c.toNat - 0x30)) 0

/-- The digits of a fraction, if a point with digits starts the text. -/
def takeFraction : List Char → List Char
  | '.' :: rest => rest.takeWhile Char.isDigit
  | _ => []

/-- The value of an exponent, if one starts the text, and its width. -/
def takeExponent : List Char → Option (Int × Nat)
  | [] => none
  | c :: rest =>
    if c = 'e' || c = 'E' then
      let (negative, sign, body) := match rest with
        | '-' :: body => (true, 1, body)
        | '+' :: body => (false, 1, body)
        | body => (false, 0, body)
      match body.takeWhile Char.isDigit with
      | [] => none
      | digits =>
        let n : Int := readNat digits
        some (if negative then -n else n, 1 + sign + digits.length)
    else none

/-- A number, without its sign, at the start of the text and its width: a zero or digits that start
with no zero, then a fraction and an exponent. It is a whole number when it has neither. -/
def readNumber? (negative : Bool) (s : List Char) : Option (Lexeme × Nat) :=
  let whole := match s with
    | '0' :: _ => ['0']
    | _ => s.takeWhile Char.isDigit
  if whole.isEmpty then none
  else
    let rest := s.drop whole.length
    let fraction := takeFraction rest
    let width := if fraction.isEmpty then whole.length else whole.length + 1 + fraction.length
    match fraction, takeExponent (s.drop width) with
    | [], none =>
      match Numeral.read whole with
      | .ok n => some (.scalar (.int (if negative then -(n : Int) else n)), width)
      | .error e => some (.badNumber e, width)
    | fraction, exponent =>
      let (power, size) := exponent.getD (0, 0)
      let digits := readNat (whole ++ fraction)
      some (.scalar (.float (.ofDecimal negative digits (power - fraction.length))), width + size)

/-! ## Lexemes -/

/-- The named values. -/
def namedValues : List (List Char × Json) :=
  [(['n', 'u', 'l', 'l'], .null), (['t', 'r', 'u', 'e'], .bool true),
   (['f', 'a', 'l', 's', 'e'], .bool false), (['N', 'a', 'N'], .float .undefined),
   ("Infinity".toList, .float (.infinite false)), ("-Infinity".toList, .float (.infinite true))]

/-- A named value at the start of the text and its width. -/
def readNamed? (s : List Char) : Option (Json × Nat) :=
  namedValues.findSome? fun (name, value) =>
    if name.isPrefixOf s then some (value, name.length) else none

/-- The lexeme at the start of a text that starts with `c`, at place `offset`, and how many
characters it takes from the rest. -/
def nextLexeme (offset : Nat) (c : Char) (rest : List Char) : Lexeme × Nat :=
  if c = '\x7b' then (.openBrace, 0)
  else if c = '\x7d' then (.closeBrace, 0)
  else if c = '[' then (.openBracket, 0)
  else if c = ']' then (.closeBracket, 0)
  else if c = ',' then (.comma, 0)
  else if c = ':' then (.colon, 0)
  else if c = '"' then
    match readString offset (offset + 1) rest with
    | .ok (codes, width) => (.str (String.ofList (joinSurrogates codes)), width)
    | .error e => (.badString e, 0)
  else
    match readNamed? (c :: rest) with
    | some (value, width) => (.scalar value, width - 1)
    | none =>
      if c = '-' then
        match readNumber? true rest with
        | some (number, width) => (number, width)
        | none => (.junk, 0)
      else
        match readNumber? false (c :: rest) with
        | some (number, width) => (number, width - 1)
        | none => (.junk, 0)

/-- The four characters that may stand between lexemes. -/
def isSpace (c : Char) : Bool := c = ' ' || c = '\t' || c = '\n' || c = '\r'

/-- The lexemes of a text that starts at place `offset`, each with its place. The first `skip`
characters belong to a lexeme that has been read already. -/
def lex : (skip offset : Nat) → List Char → List (Nat × Lexeme)
  | _, _, [] => []
  | skip + 1, offset, _ :: rest => lex skip (offset + 1) rest
  | 0, offset, c :: rest =>
    if isSpace c then lex 0 (offset + 1) rest
    else
      let (lexeme, width) := nextLexeme offset c rest
      (offset, lexeme) :: lex width (offset + 1) rest

/-! ## Values -/

/-- A list or an object that is still open. The object waits for the value of a key. -/
inductive Frame where
  | items (done : List Json)
  | members (done : Dict Json) (key : String)

/-- What has to come next. -/
inductive Want where
  | value
  | firstItem
  | firstKey
  | key (done : Dict Json)
  | colon (done : Dict Json) (key : String)
  | after (value : Json)

/-- Are so many lists and objects open that no more may start? -/
def isFull (limit : Option Nat) (stack : List Frame) : Bool := limit.any (· ≤ stack.length)

/-- Read a lexeme where a value has to stand. -/
def startValue (limit : Option Nat) (stack : List Frame) (offset : Nat) :
    Lexeme → Except ReadError (Want × List Frame)
  | .scalar value => .ok (.after value, stack)
  | .str value => .ok (.after (.str value), stack)
  | .openBracket =>
    if isFull limit stack then .error ⟨.tooDeepList, offset⟩
    else .ok (.firstItem, .items [] :: stack)
  | .openBrace =>
    if isFull limit stack then .error ⟨.tooDeepObject, offset⟩ else .ok (.firstKey, stack)
  | .badString e => .error e
  | .badNumber e => .error ⟨.number e, offset⟩
  | _ => .error ⟨.value, offset⟩

/-- Read a lexeme where a key has to stand. -/
def startKey (done : Dict Json) (stack : List Frame) (offset : Nat) :
    Lexeme → Except ReadError (Want × List Frame)
  | .str key => .ok (.colon done key, stack)
  | .badString e => .error e
  | _ => .error ⟨.key, offset⟩

/-- One lexeme further. -/
def readStep (limit : Option Nat) (offset : Nat) (lexeme : Lexeme) :
    Want → List Frame → Except ReadError (Want × List Frame)
  | .value, stack => startValue limit stack offset lexeme
  | .firstItem, stack =>
    match lexeme, stack with
    | .closeBracket, .items done :: below => .ok (.after (.arr done), below)
    | _, _ => startValue limit stack offset lexeme
  | .firstKey, stack =>
    match lexeme with
    | .closeBrace => .ok (.after (.obj []), stack)
    | _ => startKey [] stack offset lexeme
  | .key done, stack => startKey done stack offset lexeme
  | .colon done key, stack =>
    match lexeme with
    | .colon => .ok (.value, .members done key :: stack)
    | _ => .error ⟨.colon, offset⟩
  | .after _, [] => .error ⟨.extra, offset⟩
  | .after value, .items done :: below =>
    match lexeme with
    | .comma => .ok (.value, .items (done ++ [value]) :: below)
    | .closeBracket => .ok (.after (.arr (done ++ [value])), below)
    | _ => .error ⟨.comma, offset⟩
  | .after value, .members done key :: below =>
    match lexeme with
    | .comma => .ok (.key (done.put key value), below)
    | .closeBrace => .ok (.after (.obj (done.put key value)), below)
    | _ => .error ⟨.comma, offset⟩

/-- What the end of the text at place `offset` means. -/
def readEnd (offset : Nat) : Want → List Frame → Except ReadError Json
  | .after value, [] => .ok value
  | .after _, _ :: _ => .error ⟨.comma, offset⟩
  | .value, _ | .firstItem, _ => .error ⟨.value, offset⟩
  | .firstKey, _ | .key _, _ => .error ⟨.key, offset⟩
  | .colon _ _, _ => .error ⟨.colon, offset⟩

/-- Read all lexemes of a text that ends at place `stop`. -/
def readAll (limit : Option Nat) (stop : Nat) :
    List (Nat × Lexeme) → Want → List Frame → Except ReadError Json
  | [], want, stack => readEnd stop want stack
  | (offset, lexeme) :: rest, want, stack => do
    let (want, stack) ← readStep limit offset lexeme want stack
    readAll limit stop rest want stack

/-- The value that a text writes, where at most `limit` lists and objects may be inside of each
other. -/
def parseWithin (limit : Option Nat) (text : List Char) : Except ReadError Json :=
  if text.head? = some '\uFEFF' then .error ⟨.byteOrderMark, 0⟩
  else readAll limit text.length (lex 0 0 text) .value []

/-- The value that a text writes. -/
def parse (text : List Char) : Except ReadError Json := parseWithin none text

end Blockflow.Json
