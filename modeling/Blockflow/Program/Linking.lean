import Blockflow.Graph.Validity
import Blockflow.Program.Naming
import Blockflow.Record

/-!
# Linking a program

The calls that were met while a program was put together are resolved one after the other. A call of
a function that the graph does not define takes the function of that name, with all its definitions
and calls, from the library. An entry is taken once at most, so linking ends however the entries
call each other.

A linked program is finished by giving untyped parameters the types of the first call, and by
marking the classes of which objects are created with arguments.
-/

namespace Blockflow

/-- Saved functions by name. An entry may turn out not to be readable when it is needed. -/
abbrev Library := Dict (Checked SavedFunction)

/-- How deep blocks may be nested where nothing else is said. -/
def defaultLimit : Int := 100

/-- The limit that is asked for; none and zero stand for the default. -/
def nestingLimit : Option Int → Int
  | none => defaultLimit
  | some n => if n = 0 then defaultLimit else n

/-- The part of a name after its last dot. -/
def lastComponent (name : String) : String :=
  String.ofList ((Text.splitOn '.' name.toList).getLast?.getD [])

/-! ## Finishing -/

/-- The first call of something with this name, where for methods only the name of the method
counts. -/
def firstCall? (calls : List CallSite) (name : String) : Option CallSite :=
  calls.find? fun site => lastComponent site.name = name

/-- Give the untyped parameters the types of the arguments of the first call. -/
def FunctionDef.typed (calls : List CallSite) (f : FunctionDef) : FunctionDef :=
  match firstCall? calls f.name with
  | none => f
  | some site =>
    { f with params := f.params.mapIdx fun i p =>
        if p.type = .unknown then { p with type := (site.types[i]?).getD p.type } else p }

def Member.typed (calls : List CallSite) : Member → Member
  | .method f => .method (f.typed calls)
  | member => member

def ClassDef.typed (calls : List CallSite) (c : ClassDef) : ClassDef :=
  { c with members := c.members.map (Member.typed calls) }

/-- The program that was put together. -/
def Assembly.finish (a : Assembly) (main : Block) : Program :=
  { classes := a.classes.map (ClassDef.typed a.calls)
    functions := a.functions.map (FunctionDef.typed a.calls)
    main }

/-! ## Constructors -/

/-- The class that an object is created from with arguments, if the statement is such a creation.
The number of arguments has to be the number of fields. -/
def Program.constructed? (p : Program) : Statement → Except Failure (Option String)
  | .create _ _ [] _ => .ok none
  | .create className _ args node => do
    let className ← className.key.mapError Failure.defect
    match p.classes.find? (·.name = className) with
    | none => throw (.compile (.unresolved node className .unknownClass))
    | some c =>
      if args.length = c.fields.length then return some c.name
      else
        throw (.compile (.invalid
          [{ cause := .wrongArity c.name c.fields.length args.length, node := some node }]))
  | _ => .ok none

/-- Mark the classes of which objects are created with arguments. -/
def Program.withConstructors (p : Program) : Except Failure Program := do
  let needed := (← p.statements.mapM p.constructed?).filterMap id
  return { p with classes := p.classes.map fun c =>
    if needed.contains c.name then { c with hasConstructor := true } else c }

/-! ## Resolving calls -/

/-- A program that is being linked, and the names that were taken from the library. -/
structure Linking where
  assembly : Assembly
  lookups : List String := []

/-- What a library entry consists of: its definitions and its calls. -/
def loadEntry (limit : Int) (site : CallSite) (saved : SavedFunction) :
    Except Failure (Program × List CallSite) := do
  let graph ← Graph.load saved.subgraph
  graph.ensureValid
  let (main, a) ← graph.assemble limit
  let program := a.finish main
  if program.functions.any (·.name = site.name) then return (program, a.calls)
  else throw (.compile (.unresolved site.node site.name .notInEntry))

/-- Append the definitions whose names are not there yet. -/
def addMissing {α : Type} (name : α → String) (known : List α) (more : List α) : List α :=
  more.foldl (fun known d => if known.any (name · = name d) then known else known ++ [d]) known

/-- Add the definitions and the calls of a library entry. -/
def Linking.add (l : Linking) (name : String) (p : Program) (calls : List CallSite) : Linking :=
  { assembly := { l.assembly with
      classes := addMissing ClassDef.name l.assembly.classes p.classes
      functions := addMissing FunctionDef.name l.assembly.functions p.functions
      calls := l.assembly.calls ++ calls }
    lookups := l.lookups ++ [name] }

/-- Resolve the pending calls. A call of a method needs a class with a method of that name, whatever
the object. Calls inside of a library entry are pending on behalf of the call that took the
entry. -/
def resolve (limit : Int) (methods : List String) (lib : Library) (l : Linking)
    (pending : List CallSite) : Except Failure Linking :=
  match pending with
  | [] => .ok l
  | site :: rest =>
    if site.name.toList.contains '.' then
      if methods.contains (lastComponent site.name) then resolve limit methods lib l rest
      else .error (.compile (.unresolved site.node site.name .unknownFunction))
    else if l.assembly.functions.any (·.name = site.name) then resolve limit methods lib l rest
    else
      match h : lib.get? site.name with
      | none => .error (.compile (.unresolved site.node site.name .unknownFunction))
      | some (.error _) => .error (.defect (.unreadableEntry site.name))
      | some (.ok saved) => do
        have : (lib.erase site.name).length < lib.length := Dict.length_erase_lt h
        let (program, calls) ← loadEntry limit site saved
        resolve limit methods (lib.erase site.name) (l.add site.name program calls)
          (rest ++ calls.map fun nested => { nested with node := site.node })
termination_by (lib.length, pending.length)

/-! ## Building -/

/-- A program and what was collected while it was built. -/
structure Build where
  program : Program
  /-- the types of the names that are visible at the end of the main block -/
  symbols : Symbols
  calls : List CallSite
  lookups : List String

namespace Graph

/-- The program of a graph on its own: calls are not resolved. -/
def buildAlone (g : Graph) (limit : Int) : Except Failure Build := do
  let (main, a) ← g.assemble limit
  g.checkNames a
  return { program := a.finish main, symbols := a.symbols, calls := a.calls, lookups := [] }

/-- Resolve the calls of a graph. -/
def link (limit : Int) (lib : Library) (a : Assembly) (calls : List CallSite) :
    Except Failure Linking :=
  resolve limit (a.methods.map FunctionDef.name) lib { assembly := a } calls

/-- How linking fails when names are objects: methods come first, then the calls in order, then the
functions and the classes. -/
def linkFailure (g : Graph) (limit : Int) (lib : Library) (a : Assembly) : Failure :=
  if a.methods.any (g.hasObjectName ·.node) then .defect .notKey
  else
    let hasLibrary := !lib.isEmpty
    let named := { a with functions := a.functions.filter fun f => !g.hasObjectName f.node }
    match link limit lib named (g.readyCalls hasLibrary a),
      a.calls.findSome? (g.callFailure? hasLibrary a), g.checkNames a with
    | .error failure, _, _ => failure
    | .ok _, some failure, _ => failure
    | .ok _, none, .error failure => failure
    | .ok _, none, .ok _ => .defect .notKey

/-- The program of a graph, linked with a library. -/
def build (g : Graph) (limit : Int) (lib : Library) : Except Failure Build := do
  let (main, a) ← g.assemble limit
  if g.namesAreTexts a then
    let l ← link limit lib a a.calls
    let program ← (l.assembly.finish main).withConstructors
    return { program, symbols := a.symbols, calls := l.assembly.calls, lookups := l.lookups }
  else throw (g.linkFailure limit lib a)

/-- The program of a valid graph. -/
def program (g : Graph) (lib : Library) : Except Failure Program := do
  g.ensureValid
  return (← g.build defaultLimit lib).program

end Graph

end Blockflow
