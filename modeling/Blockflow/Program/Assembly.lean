import Blockflow.Graph.Outline
import Blockflow.Program.Basic

/-!
# Programs from outlines

An outline is turned into a program in one walk from left to right. Each node has a `Heading`: what
it contributes apart from the blocks behind its exits. Functions and classes are taken out of the
block that they are drawn in; in the body of a class they stay, together with the fields.

The walk hands along the types of the visible names, the calls that were met and the definitions
that were taken out. The first fault that it meets ends it.
-/

namespace Blockflow

/-! ## Headings -/

/-- A call that was met: the node, the name, the arguments and their types. -/
structure CallSite where
  node : String
  name : String
  args : List String
  types : List ValueType
deriving DecidableEq, Repr

/-- What a node contributes apart from the blocks behind its exits. -/
inductive Heading where
  | plain (statement : Statement)
  | declare (declaration : Declaration)
  | call (site : CallSite)
  | branch (cond : FieldValue)
  | switch (subject : String) (type : ValueType) (values : List String)
  /-- `counter` is the loop variable with its type, if the loop declares it -/
  | forLoop (init : String) (cond step : FieldValue) (declares : Bool)
      (counter : Option (String × ValueType))
  | whileLoop (cond : FieldValue)
  | function (name : String) (params : List Param)
  | classDef (name : String)

namespace Heading

/-- The declared type of a node, if it declares one. -/
def declaredType? (n : Node) : Except Defect (Option ValueType) := do
  return ValueType.ofDeclared? (← (n.given "dataType").key)

/-- The loop variable that a `for` with this initialiser declares, with its type: a variable that is
not visible yet. -/
def counter? (symbols : Symbols) (init : Expression.LoopInit) : Option (String × ValueType) :=
  if symbols.has init.name then none
  else
    some (init.name, (init.declared.bind ValueType.ofDeclared?).getD
      (Expression.infer symbols init.value))

/-- The declared type of a node, or else the type of its value. -/
def valueType (symbols : Symbols) (n : Node) (value : FieldValue) : Except Defect ValueType := do
  match ← declaredType? n with
  | some type => return type
  | none => return Expression.infer symbols (← value.searched)

/-- The heading of a node of a known kind, where the visible names have the given types. A function,
a class or a call has the name that is shown, even if it is given as an object. -/
def read (symbols : Symbols) (n : Node) : BlockType → Except Defect Heading
  | .declare => do
    let value := n.given "value"
    let type ← valueType symbols n value
    return .declare { name := ← (n.given "name").key, value, type, node := n.id }
  | .update => .ok (.plain (.assign (n.given "name") (n.given "value") n.id))
  | .array => do
    let elements ← n.list "values"
    let type := (← declaredType? n).getD
      (Expression.commonType (elements.map (Expression.infer symbols)))
    return .plain (.array (n.given "name") elements type n.id)
  | .print => .ok (.plain (.print (n.given "value") n.id))
  | .create => do
    return .plain (.create (n.given "className") (n.given "name") (← n.list "args") n.id)
  | .call => do
    let args ← n.list "args"
    return .call
      { node := n.id, name := (n.given "name").shown, args
        types := args.map (Expression.infer symbols) }
  | .branch => .ok (.branch (n.given "condition"))
  | .switch => do
    let subject ← (n.given "subject").searched
    return .switch subject (Expression.infer symbols subject) (← n.list "cases")
  | .forLoop => do
    let init ← (n.given "init").searched
    let parsed := Expression.LoopInit.parse? init
    let counter := parsed.bind (counter? symbols)
    return .forLoop init (n.given "condition") (n.given "step")
      (parsed.isNone || counter.isSome) counter
  | .whileLoop => .ok (.whileLoop (n.given "condition"))
  | .function => do
    match Param.parseList (← (n.given "params").expression) with
    | .ok params => return .function (n.given "name").shown params
    | .error e => throw (.badParams e)
  | .classDef => .ok (.classDef (n.given "name").shown)

/-- The types of the names that are visible in the blocks behind the exits. -/
def inner (symbols : Symbols) : Heading → Symbols
  | .forLoop _ _ _ _ (some (name, type)) => symbols.put name type
  | .function _ params => params.foldl (fun s p => s.put p.name p.type) []
  | .classDef _ => []
  | _ => symbols

/-- The types of the names that are visible after the node, from those before it and those at the
end of the blocks behind its exits. -/
def outer (before last : Symbols) : Heading → Symbols
  | .declare d => before.put d.name d.type
  | .forLoop _ _ _ _ (some (name, _)) => last.erase name
  | .function _ _ | .classDef _ => before
  | _ => last

/-- Are the blocks behind the exits parts of a class body? -/
def innerClass (inClass : Bool) : Heading → Bool
  | .function _ _ => false
  | .classDef _ => true
  | _ => inClass

/-- The calls that the node makes itself. -/
def calls : Heading → List CallSite
  | .call site => [site]
  | _ => []

/-- The statements among some parts. -/
def block (parts : List Part) : Block :=
  parts.filterMap fun
    | .statement s => some s
    | _ => none

/-- The members of a class among some parts. -/
def members (parts : List Part) : List Member :=
  parts.filterMap fun
    | .statement (.declare d) => some (.field d)
    | .function f => some (.method f)
    | _ => none

/-- The part of the program that a node becomes, from the parts behind its exits. -/
def part (node : String) (slots : List (List Part)) : Heading → Part
  | .plain statement => .statement statement
  | .declare d => .statement (.declare d)
  | .call site => .statement (.call site.name site.args node)
  | .branch cond =>
    .statement (.branch cond (block (slots.getD 0 [])) (block (slots.getD 1 [])) node)
  | .switch subject type values =>
    .statement (.switch subject type (values.zip (slots.map block))
      (block (slots.getD values.length [])) node)
  | .forLoop init cond step declares _ =>
    .statement (.forLoop init cond step declares (block (slots.getD 0 [])) node)
  | .whileLoop cond => .statement (.whileLoop cond (block (slots.getD 0 [])) node)
  | .function name params =>
    .function { name, params, body := block (slots.getD 0 []), node }
  | .classDef name => .classDef { name, members := members (slots.getD 0 []), node }

end Heading

/-! ## Assembling -/

/-- What is handed along while a program is put together. -/
structure Assembly where
  symbols : Symbols := []
  calls : List CallSite := []
  functions : List FunctionDef := []
  classes : List ClassDef := []

namespace Assembly

/-- The error for an issue of a single node. -/
def nodeIssue (node : String) (cause : IssueCause) : Failure :=
  .compile (.invalid [{ cause, node := some node }])

/-- Put a part in its place: into the class body or the block that is being built, or among the
definitions that are taken out. -/
def place (inClass : Bool) (node : String) (part : Part) (a : Assembly) :
    Except Failure (List Part × Assembly) :=
  match inClass, part with
  | true, .statement (.declare _) => .ok ([part], a)
  | true, .function _ => .ok ([part], a)
  | true, _ => .error (nodeIssue node .notMember)
  | false, .function f =>
    if a.functions.any (·.name = f.name) then .error (nodeIssue f.node (.redefined f.name))
    else .ok ([], { a with functions := a.functions ++ [f] })
  | false, .classDef c =>
    if a.classes.any (·.name = c.name) then .error (nodeIssue c.node (.redefined c.name))
    else .ok ([], { a with classes := a.classes ++ [c] })
  | false, .statement _ => .ok ([part], a)

/-- The heading of a node. -/
def heading (a : Assembly) (n : Node) : Except Failure Heading :=
  match n.block? with
  | none => .error (.defect (.unknownType n.type))
  | some type =>
    match Heading.read a.symbols n type with
    | .ok h => .ok h
    | .error defect => .error (.defect defect)

mutual

/-- The parts of a chain. -/
def chain (inClass : Bool) : Outline → Assembly → Except Failure (List Part × Assembly)
  | .done, a => .ok ([], a)
  | .fault node fault, _ => .error (.compile (.controlFlow node fault))
  | .missing id, _ => .error (.defect (.missingNode id))
  | .step node slots next, a => do
    let h ← a.heading node
    let (blocks, b) ← chains (h.innerClass inClass) slots { a with symbols := h.inner a.symbols }
    let b := { b with symbols := h.outer a.symbols b.symbols, calls := b.calls ++ h.calls }
    let (here, b) ← place inClass node.id (h.part node.id blocks) b
    let (rest, b) ← chain inClass next b
    return (here ++ rest, b)

/-- The parts behind the exits of a node, exit by exit. -/
def chains (inClass : Bool) :
    List (Role × Outline) → Assembly → Except Failure (List (List Part) × Assembly)
  | [], a => .ok ([], a)
  | (_, outline) :: rest, a => do
    let (block, a) ← chain inClass outline a
    let (blocks, a) ← chains inClass rest a
    return (block :: blocks, a)

end

/-- The statements of the chains of a graph, one after the other. -/
def mainBlock : List Outline → Assembly → Except Failure (Block × Assembly)
  | [], a => .ok ([], a)
  | outline :: rest, a => do
    let (parts, a) ← chain false outline a
    let (block, a) ← mainBlock rest a
    return (Heading.block parts ++ block, a)

end Assembly

/-- The first node that has no place in the outline. -/
def Graph.unplaced? (g : Graph) (placed : List String) : Option String :=
  g.ids.find? (!placed.contains ·)

/-- The main block of a graph, and what was collected on the way. Every node has to have a place. -/
def Graph.assemble (g : Graph) (limit : Int) : Except Failure (Block × Assembly) := do
  let (chains, placed) := g.outline limit
  let (main, a) ← Assembly.mainBlock chains {}
  match g.unplaced? placed with
  | some id => throw (.compile (.controlFlow id .unreached))
  | none => return (main, a)

end Blockflow
