import Blockflow.Text.Quoted

/-!
# Percent escapes

In an address a character may be written by the bytes of its UTF-8 form, each as a percent sign and
two digits in base sixteen. Whatever the bytes are, they can be read: bytes that belong to no
character are read as the replacement character, one for every longest run of bytes that a character
could start with.
-/

namespace Blockflow.Text

/-! ## Bytes of characters -/

/-- The UTF-8 form of a character. -/
def utf8 (c : Char) : List Nat :=
  let n := c.toNat
  if n < 0x80 then [n]
  else if n < 0x800 then [0xC0 + n / 0x40, 0x80 + n % 0x40]
  else if n < 0x10000 then [0xE0 + n / 0x1000, 0x80 + n / 0x40 % 0x40, 0x80 + n % 0x40]
  else
    [0xF0 + n / 0x40000, 0x80 + n / 0x1000 % 0x40, 0x80 + n / 0x40 % 0x40, 0x80 + n % 0x40]

/-- A character of which some bytes have been read: how many are owed after the next one, between
which bounds the next one has to be, and what the bytes so far stand for. -/
structure Unfinished where
  owed : Nat
  low : Nat
  high : Nat
  value : Nat

/-- The character for bytes that belong to none. -/
def replacement : Char := '�'

/-- Read a byte where a character has to start: the characters that are finished, and the one that
is not. -/
def startChar (b : Nat) : List Char × Option Unfinished :=
  if b < 0x80 then ([Char.ofNat b], none)
  else if 0xC2 ≤ b && b ≤ 0xDF then ([], some ⟨0, 0x80, 0xBF, b - 0xC0⟩)
  else if b = 0xE0 then ([], some ⟨1, 0xA0, 0xBF, 0⟩)
  else if b = 0xED then ([], some ⟨1, 0x80, 0x9F, 0xD⟩)
  else if 0xE1 ≤ b && b ≤ 0xEF then ([], some ⟨1, 0x80, 0xBF, b - 0xE0⟩)
  else if b = 0xF0 then ([], some ⟨2, 0x90, 0xBF, 0⟩)
  else if 0xF1 ≤ b && b ≤ 0xF3 then ([], some ⟨2, 0x80, 0xBF, b - 0xF0⟩)
  else if b = 0xF4 then ([], some ⟨2, 0x80, 0x8F, 4⟩)
  else ([replacement], none)

/-- Read a byte inside of a character. A byte that does not fit starts the next one. -/
def continueChar (u : Unfinished) (b : Nat) : List Char × Option Unfinished :=
  if u.low ≤ b && b ≤ u.high then
    let value := 0x40 * u.value + (b - 0x80)
    match u.owed with
    | 0 => ([Char.ofNat value], none)
    | owed + 1 => ([], some ⟨owed, 0x80, 0xBF, value⟩)
  else
    let (chars, next) := startChar b
    (replacement :: chars, next)

/-- The characters of some bytes, after the ones that `pending` comes from. -/
def decodeBytes : (pending : Option Unfinished) → List Nat → List Char
  | none, [] => []
  | some _, [] => [replacement]
  | none, b :: rest =>
    let (chars, next) := startChar b
    chars ++ decodeBytes next rest
  | some u, b :: rest =>
    let (chars, next) := continueChar u b
    chars ++ decodeBytes next rest

/-! ## Escapes -/

/-- The byte that two digits write. -/
def hexPair? (a b : Char) : Option Nat := do return 0x10 * (← hexValue? a) + (← hexValue? b)

/-- The bytes of a text in which escapes stand for themselves. The first `skip` characters belong to
an escape that has been read already. A percent sign without two digits after it is no escape. -/
def escapedBytes : (skip : Nat) → List Char → List Nat
  | _, [] => []
  | skip + 1, _ :: rest => escapedBytes skip rest
  | 0, c :: rest =>
    match c, rest with
    | '%', a :: b :: _ =>
      match hexPair? a b with
      | some byte => byte :: escapedBytes 2 rest
      | none => utf8 c ++ escapedBytes 0 rest
    | _, _ => utf8 c ++ escapedBytes 0 rest

/-- The text with its escapes read. -/
def unescape (s : List Char) : List Char := decodeBytes none (escapedBytes 0 s)

/-- Does the character stand for itself in every part of an address? -/
def isUnreserved (c : Char) : Bool :=
  c.isAlphanum || c = '-' || c = '.' || c = '_' || c = '~'

/-- The text with everything escaped that could be taken for a part of the form of an address. -/
def escape (s : List Char) : List Char :=
  s.flatMap fun c =>
    if isUnreserved c then [c] else (utf8 c).flatMap fun byte => '%' :: hexDigits 2 byte

end Blockflow.Text
