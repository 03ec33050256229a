import Blockflow.Program.Assembly

/-!
# Names that are objects

A definition or a call whose name is given as an object can be put together with the rest of a
program, under the name that is shown. It fails as soon as the name is compared with other names:
names are looked up in tables, and the name of a call is cut at its dots.
-/

namespace Blockflow

/-- The methods of the classes that were met. -/
def Assembly.methods (a : Assembly) : List FunctionDef := a.classes.flatMap ClassDef.methods

namespace Graph

/-- The object that is given as the name of a node, if one is. -/
def nameObject? (g : Graph) (id : String) : Option (Dict Json) :=
  (g.node? id).bind fun n =>
    match n.given "name" with
    | .object members => some members
    | .text _ => none

/-- Is the name of the node given as an object? -/
def hasObjectName (g : Graph) (id : String) : Bool := (g.nameObject? id).isSome

/-- Accept what was met if the names of the calls, functions and methods are texts. -/
def checkNames (g : Graph) (a : Assembly) : Except Failure Unit :=
  if a.calls.any (g.hasObjectName ·.node) then .error (.defect .notDotted)
  else if (a.methods ++ a.functions).any (g.hasObjectName ·.node) then .error (.defect .notKey)
  else .ok ()

/-- Are all names texts? -/
def namesAreTexts (g : Graph) (a : Assembly) : Bool :=
  !(a.calls.any (g.hasObjectName ·.node) ||
    (a.methods ++ a.functions).any (g.hasObjectName ·.node) ||
    a.classes.any (g.hasObjectName ·.node))

/-- Why a call cannot be resolved whose name is an object: it would have to be cut at its dots, or
to be looked up in the library, and where there is no library the call has nothing to refer to. A
function with the same object as its name can be called. -/
def callFailure? (g : Graph) (hasLibrary : Bool) (a : Assembly) (site : CallSite) :
    Option Failure :=
  match g.nameObject? site.node with
  | none => none
  | some members =>
    if members.has "." then some (.defect .notDotted)
    else if a.functions.any fun f => g.hasObjectName f.node && f.name = site.name then none
    else if hasLibrary then some (.defect .notKey)
    else some (.compile (.unresolvedObject site.node members))

/-- The calls before the first one that cannot be resolved because of its name, without those whose
name is an object. -/
def readyCalls (g : Graph) (hasLibrary : Bool) (a : Assembly) : List CallSite :=
  (a.calls.takeWhile fun site => (g.callFailure? hasLibrary a site).isNone).filter fun site =>
    !g.hasObjectName site.node

end Graph

end Blockflow
