import Blockflow.Store.Error
import Blockflow.Text.Word

/-!
# Names of records

Records are kept under names that are safe as names of files: a word character first, then up to 127
word characters, spaces, dots and hyphens, and nowhere two dots in a row. Blanks around a name do
not count. The file of a record has the name of the record and an extension; a file system allows
only so many bytes for it.
-/

namespace Blockflow.Store

/-- May the character stand in a name after its first one? -/
def isSafeChar (c : Char) : Bool := Text.isWord c || c == ' ' || c == '.' || c == '-'

/-- Is the text made of the right characters, and not too long? -/
def isSafe : List Char → Bool
  | [] => false
  | c :: rest => Text.isWord c && rest.all isSafeChar && rest.length ≤ 127

/-- Do two dots stand side by side? -/
def hasDoubleDot : List Char → Bool
  | '.' :: '.' :: _ => true
  | _ :: rest => hasDoubleDot rest
  | [] => false

/-- The key of the record that a name stands for: the name without the blanks around it, if that is
safe. -/
def checkName (name : String) : Except StoreError String :=
  let key := Text.strip name.toList
  if isSafe key && !hasDoubleDot key then .ok (String.ofList key)
  else .error (.badName (String.ofList key))

/-- The name of the file of a record. -/
def fileName (key : String) : String := key ++ ".json"

/-- How many bytes the name of a file may have. -/
def fileNameLimit : Nat := 255

/-- Accept a key if there can be a file for it. -/
def checkFile (key : String) : Except StoreError Unit :=
  if fileNameLimit < (fileName key).utf8ByteSize then .error (.longName (fileName key)) else .ok ()

/-- The key of the record that a name stands for, if there can be a file for it. -/
def fileKey (name : String) : Except StoreError String := do
  let key ← checkName name
  checkFile key
  return key

/-- Is the name safe as it stands, up to a line break at its end? -/
def isSafeLine (name : List Char) : Bool :=
  isSafe name || (name.getLast? = some '\n' && isSafe name.dropLast)

end Blockflow.Store
