import Blockflow.Expression.Typing

/-!
# Spelling an expression for a target language

The target languages differ in a few tokens only: the logical operations, the truth values, the null
value and, for some texts in single quotes, the quotes. An expression is respelled token by token.
-/

namespace Blockflow.Expression

open Text Token

/-- The three ways in which the target languages spell the tokens that differ. -/
inductive Spelling where
  /-- words for the logical operations, capitals for the truth values, `None` -/
  | words
  /-- signs for the logical operations and `null` -/
  | signs
  /-- signs for the logical operations and `nullptr` -/
  | signsNullptr
deriving DecidableEq, Repr

namespace Spelling

/-- The spelling of a target language; every name but two stands for signs and `null`. -/
def ofLanguage (name : String) : Spelling :=
  if name = "python" then .words else if name = "cpp" then .signsNullptr else .signs

def null : Spelling → List Char
  | .words => "None".toList
  | .signs => "null".toList
  | .signsNullptr => "nullptr".toList

def truth (spelling : Spelling) (value : Bool) : List Char :=
  match spelling, value with
  | .words, true => "True".toList
  | .words, false => "False".toList
  | _, true => "true".toList
  | _, false => "false".toList

end Spelling

def isNullWord (s : List Char) : Bool :=
  s = "null".toList || s = "None".toList || s = "nullptr".toList

/-- Write escaped single quotes without their backslash. -/
def unescapeSingle : List Char → List Char
  | [] => []
  | [c] => [c]
  | c :: d :: rest =>
    if c = '\\' && d = '\x27' then d :: unescapeSingle rest else c :: unescapeSingle (d :: rest)

/-- Put a backslash before every double quote that has none. The flag says whether the character
before is a backslash. -/
def escapeDouble (escaped : Bool) : List Char → List Char
  | [] => []
  | c :: rest =>
    if c = '"' && !escaped then '\\' :: c :: escapeDouble false rest
    else c :: escapeDouble (c = '\\') rest

/-- A text in single quotes, put in double quotes. -/
def toDoubleQuoted (literal : List Char) : List Char :=
  '"' :: escapeDouble false (unescapeSingle (literal.drop 1).dropLast) ++ ['"']

/-- Is there nothing on this side, or a blank? -/
def isGap : Option Token → Bool
  | none => true
  | some t => t.kind = .space

/-- A blank, unless there is one already. -/
def gap (present : Bool) : List Char := if present then [] else [' ']

/-- One token respelled, between its neighbours `previous` and `next`, and whether a blank after it
is dropped. -/
def spellToken (spelling : Spelling) (previous next : Option Token) (t : Token) :
    List Char × Bool :=
  match t.kind with
  | .op =>
    if spelling = .words && (t.text = ['&', '&'] || t.text = ['|', '|']) then
      let word := if t.text = ['&', '&'] then "and".toList else "or".toList
      (gap (isGap previous) ++ word ++ gap (isGap next), false)
    else if spelling = .words && t.text = ['!'] then
      let free := isGap previous || previous.any (·.text = ['('])
      (gap free ++ "not ".toList, true)
    else (t.text, false)
  | .name =>
    if spelling ≠ .words && t.text = "and".toList then (['&', '&'], false)
    else if spelling ≠ .words && t.text = "or".toList then (['|', '|'], false)
    else if spelling ≠ .words && t.text = "not".toList then (['!'], true)
    else if isTrueWord t.text then (spelling.truth true, false)
    else if isFalseWord t.text then (spelling.truth false, false)
    else if isNullWord t.text then (spelling.null, false)
    else (t.text, false)
  | .string =>
    if spelling ≠ .words && t.text.head? = some '\x27' && quotedType t.text = .string then
      (toDoubleQuoted t.text, false)
    else (t.text, false)
  | _ => (t.text, false)

/-- Tokens respelled from left to right. The flag says that a blank at the start is dropped. -/
def spellTokens (spelling : Spelling) : Option Token → Bool → List Token → List Char
  | _, _, [] => []
  | previous, dropBlank, t :: rest =>
    if dropBlank && t.kind = .space then spellTokens spelling (some t) false rest
    else
      let (text, dropNext) := spellToken spelling previous rest.head? t
      text ++ spellTokens spelling (some t) dropNext rest

/-- An expression respelled. -/
def spellChars (spelling : Spelling) (s : List Char) : List Char :=
  spellTokens spelling none false (tokens (strip s))

/-- An expression respelled. -/
def spell (spelling : Spelling) (s : String) : String :=
  String.ofList (spellChars spelling s.toList)

/-! ## Qualified names -/

/-- Put `lead` before the names that `isField` accepts, unless they are members of something: the
text of the last token other than a blank is kept in `previous`. -/
def qualifyTokens (isField : List Char → Bool) (lead : List Char) :
    (previous : List Char) → List Token → List Char
  | _, [] => []
  | previous, t :: rest =>
    (if t.kind = .name && isField t.text && previous ≠ ['.'] then lead ++ t.text else t.text) ++
      qualifyTokens isField lead (if t.kind = .space then previous else t.text) rest

/-- Put `lead` before the bare occurrences of the names. -/
def qualify (names : List String) (lead s : String) : String :=
  String.ofList (qualifyTokens (names.contains <| String.ofList ·) lead.toList [] (tokens s.toList))

end Blockflow.Expression
