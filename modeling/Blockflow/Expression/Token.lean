import Blockflow.Text.Digit
import Blockflow.Text.Word

/-!
# Tokens of an expression

Expressions are not parsed into trees. They are cut into tokens, and everything that is done with
them is done token by token. Cutting loses nothing: the texts of the tokens, put together, are the
expression.

At each place the first kind that fits is taken, in this order: a text in quotes, a number, a name,
an operator, a run of blanks, and any other single character. A quote that is never closed is such
an other character.
-/

namespace Blockflow

open Text

inductive TokenKind where
  | string | number | name | op | space | other
deriving DecidableEq, Repr

structure Token where
  kind : TokenKind
  text : List Char
deriving DecidableEq, Repr

namespace Token

/-! ## The kinds of token -/

/-- What follows an opening quote up to and with the closing one. A backslash takes the next
character with it, and no backslash stands before a line break. -/
def closeQuote? (quote : Char) : List Char → Option (List Char)
  | [] => none
  | c :: rest =>
    if c = quote then some [c]
    else if c = '\\' then
      match rest with
      | [] => none
      | d :: more => if d = '\n' then none else (closeQuote? quote more).map (c :: d :: ·)
    else (closeQuote? quote rest).map (c :: ·)

/-- The exponent at the start of a text, or nothing: `e` or `E`, a sign that may be left out, and
digits. -/
def exponent : List Char → List Char
  | [] => []
  | c :: rest =>
    if c = 'e' || c = 'E' then
      match rest with
      | [] => []
      | s :: more =>
        if s = '+' || s = '-' then
          match more.takeWhile isDigit with
          | [] => []
          | digits => c :: s :: digits
        else
          match rest.takeWhile isDigit with
          | [] => []
          | digits => c :: digits
    else []

/-- The number at the start of a text. An exponent needs a point before it, and a number that starts
with its point has none. -/
def number? (s : List Char) : Option (List Char) :=
  match s.takeWhile isDigit, s.dropWhile isDigit with
  | [], '.' :: rest =>
    match rest.takeWhile isDigit with
    | [] => none
    | digits => some ('.' :: digits)
  | [], _ => none
  | whole, '.' :: rest =>
    some (whole ++ '.' :: rest.takeWhile isDigit ++ exponent (rest.dropWhile isDigit))
  | whole, _ => some whole

/-- The operators of two characters. -/
def isPair (c d : Char) : Bool :=
  match c, d with
  | '+', '+' | '-', '-' | '&', '&' | '|', '|' | '=', '=' | '!', '=' | '<', '=' | '>', '='
  | '+', '=' | '-', '=' | '*', '=' | '/', '=' | '%', '=' | ':', ':' => true
  | _, _ => false

/-- The operators of one character. -/
def isSymbol (c : Char) : Bool := "-+*/%<>=!(),[]\x7b\x7d.:?&|^~;".toList.contains c

/-- The operator at the start of a text. -/
def op? (c : Char) (rest : List Char) : Option (List Char) :=
  match rest with
  | d :: _ => if isPair c d then some [c, d] else if isSymbol c then some [c] else none
  | [] => if isSymbol c then some [c] else none

/-- The first token of the text `c :: rest`. -/
def first (c : Char) (rest : List Char) : Token :=
  match if c = '"' || c = '\x27' then closeQuote? c rest else none with
  | some body => ⟨.string, c :: body⟩
  | none =>
    match number? (c :: rest) with
    | some digits => ⟨.number, digits⟩
    | none =>
      if isNameStart c then ⟨.name, c :: rest.takeWhile isNameChar⟩
      else
        match op? c rest with
        | some text => ⟨.op, text⟩
        | none =>
          if isBlank c then ⟨.space, c :: rest.takeWhile isBlank⟩
          else ⟨.other, [c]⟩

/-! ## Cutting a text -/

/-- The tokens of a text whose first `skip` characters belong to a token that has been cut
already. -/
def scan : (skip : Nat) → List Char → List Token
  | _, [] => []
  | skip + 1, _ :: rest => scan skip rest
  | 0, c :: rest =>
    let token := first c rest
    token :: scan (token.text.length - 1) rest

/-- The tokens of a text. -/
def tokens (s : List Char) : List Token := scan 0 s

/-- The texts of the tokens, put together. -/
def join (ts : List Token) : List Char := ts.flatMap text

/-! ## Brackets -/

/-- By how much an operator changes the depth of brackets. -/
def depthChange (t : Token) : Int :=
  if t.kind = .op then
    match t.text with
    | ['('] | ['['] | ['\x7b'] => 1
    | [')'] | [']'] | ['\x7d'] => -1
    | _ => 0
  else 0

/-- The pieces between the operators `mark` that stand outside of brackets, where `depth` brackets
are open at the start. -/
def cutAt (mark : List Char) (depth : Int) : List Token → List (List Token)
  | [] => [[]]
  | t :: rest =>
    let depth := depth + t.depthChange
    if t.kind = .op && t.text = mark && depth = 0 then [] :: cutAt mark depth rest
    else
      match cutAt mark depth rest with
      | [] => [[t]]
      | piece :: pieces => (t :: piece) :: pieces

/-- The pieces of a text between the operators `mark` outside of brackets, stripped. -/
def pieces (mark : List Char) (s : List Char) : List (List Char) :=
  (cutAt mark 0 (tokens s)).map (strip ∘ join)

/-- Is the token not a run of blanks? -/
def isSolid (t : Token) : Bool := t.kind ≠ .space

/-- The tokens of a text other than blanks. -/
def solid (s : List Char) : List Token := (tokens s).filter isSolid

end Token

end Blockflow
