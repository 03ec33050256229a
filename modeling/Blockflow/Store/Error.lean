import Blockflow.Diagram.Schema

/-!
# Errors of stores

Why a store refuses to do something with a record.
-/

namespace Blockflow

inductive StoreError where
  /-- the name is not safe -/
  | badName (name : String)
  /-- the file system has no file with a name as long as this -/
  | longName (file : String)
  /-- the data of a block are nested too deep to be written -/
  | tooDeep
  /-- what is on file is no record of this kind -/
  | unreadable (faults : List SchemaFault)
deriving DecidableEq, Repr

def StoreError.message : StoreError → String
  | .badName name => "Invalid name: " ++ Text.quoted name
  | .longName file => "[Errno 36] File name too long: " ++ Text.quoted file
  | .tooDeep => "Error serializing to JSON: ValueError: Maximum serialization depth exceeded"
  | .unreadable faults => Json.intString faults.length ++ " faults in the stored record"

end Blockflow
