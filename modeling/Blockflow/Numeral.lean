import Blockflow.Json.Basic
import Blockflow.Text.Digit

/-!
# Whole numbers in digits

Whole numbers are read from digits and written in digits up to a fixed number of digits. What is
longer is refused before anything is computed with it: zeros at the start count, a sign does not.
-/

namespace Blockflow

/-- The greatest number of digits that is read or written. -/
def digitLimit : Nat := 4300

/-- Why a whole number cannot be read or written. -/
inductive NumeralError where
  /-- there are blanks after the minus sign -/
  | malformed (text : String)
  /-- there are too many digits to be read -/
  | tooManyDigits (count : Nat)
  /-- there are too many digits to be written -/
  | tooLong
deriving DecidableEq, Repr

/-- The message shows at most 200 characters of a malformed text. -/
def NumeralError.message : NumeralError → String
  | .malformed text =>
    "invalid literal for int() with base 10: " ++
      String.ofList ((Text.quoted text).toList.take 200)
  | .tooManyDigits count =>
    "Exceeds the limit (" ++ Json.intString digitLimit ++
      " digits) for integer string conversion: value has " ++ Json.intString count ++
      " digits; use sys.set_int_max_str_digits() to increase the limit"
  | .tooLong =>
    "Exceeds the limit (" ++ Json.intString digitLimit ++
      " digits) for integer string conversion; use sys.set_int_max_str_digits() " ++
      "to increase the limit"

namespace Numeral

/-- The number that a run of digits writes. -/
def read (digits : List Char) : Except NumeralError Nat :=
  if digitLimit < digits.length then .error (.tooManyDigits digits.length)
  else .ok (Text.readDigits digits)

/-- The number that digits with a minus sign or without one write. -/
def readSigned (s : String) : Except NumeralError Int :=
  match s.toList with
  | '-' :: digits =>
    if digits.all Text.isDigit then (read digits).map fun n => -(n : Int) else .error (.malformed s)
  | digits => (read digits).map Int.ofNat

/-- The digits of a number, after a minus sign if it is negative. -/
def write (n : Int) : Except NumeralError String :=
  if digitLimit < (Nat.toDigits 10 n.natAbs).length then .error .tooLong
  else .ok (Json.intString n)

end Numeral

end Blockflow
