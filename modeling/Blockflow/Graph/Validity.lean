import Blockflow.Block.Basic

/-!
# Everything that is wrong with a graph

The issues of a graph in the order in which they are reported: unknown types of nodes, faulty edges,
exits that are misused, and faulty data. A graph is valid when there is none. The exits of a switch
come from its list of cases, so a switch that has an object in place of that list stops the check.
-/

namespace Blockflow.Graph

/-! ## Nodes and edges -/

/-- Nodes of unknown type. -/
def typeIssues (g : Graph) : List Issue :=
  (g.nodes.filter (·.block?.isNone)).map fun n =>
    { cause := .unknownType n.type, node := some n.id }

/-- Edge ids that are used more than once. -/
def edgeIdIssues (g : Graph) : List Issue :=
  let ids := g.edges.map Edge.id
  (ids.eraseDups.filter (1 < ids.count ·)).map fun id =>
    { cause := .edgeIdReused id (ids.count id), edge := some id }

/-- An end of an edge that is no node. The source is blamed for a target that is missing. -/
def endIssues (g : Graph) (e : Edge) (endpoint : String) : List Issue :=
  if g.hasNode endpoint then []
  else
    [{ cause := .missingEnd e.id endpoint
       node := if endpoint = e.target then some e.source else none
       edge := some e.id }]

/-- A handle that stands for no role. -/
def handleIssues (g : Graph) (e : Edge) : List Issue :=
  match e.role with
  | some _ => []
  | none =>
    [{ cause := .unknownRole e.id (e.handle.getD "")
       node := if g.hasNode e.source then some e.source else none
       edge := some e.id }]

def edgeIssues (g : Graph) : List Issue :=
  g.edgeIdIssues ++
    g.edges.flatMap fun e => g.endIssues e e.source ++ g.endIssues e e.target ++ g.handleIssues e

/-! ## Exits -/

/-- The edges with a role that leave a node towards a node of the graph. -/
def exitEdges (g : Graph) (n : Node) : List (Edge × Role) :=
  (g.outgoing n.id).filterMap fun e =>
    if g.hasNode e.target then e.role.map (e, ·) else none

/-- Edges that leave through an exit that the block does not have. -/
def foreignExitIssues (g : Graph) (n : Node) (allowed : List RoleSpec) : List Issue :=
  ((g.exitEdges n).filter fun (_, role) => !(allowed.map RoleSpec.role).contains role).map
    fun (e, role) =>
      { cause := .roleNotAllowed role n.type, node := some n.id, edge := some e.id }

/-- Exits through which more than one edge leaves. -/
def sharedExitIssues (g : Graph) (n : Node) : List Issue :=
  let roles := (g.exitEdges n).map (·.2)
  (roles.eraseDups.filter (1 < roles.count ·)).map fun role =>
    { cause := .roleShared (roles.count role) role, node := some n.id }

def nodeRoleIssues (g : Graph) (n : Node) : Except Defect (List Issue) :=
  match n.block? with
  | none => .ok []
  | some type => do
    return g.foreignExitIssues n (← n.exits type) ++ g.sharedExitIssues n

def roleIssues (g : Graph) : Except Defect (List Issue) :=
  (g.nodes.mapM g.nodeRoleIssues).map List.flatten

/-! ## Data -/

/-- What is wrong with the text of a field. -/
def textCause? (spec : FieldSpec) (value : String) : Option IssueCause :=
  if spec.kind = .identifier && !Text.passesLine Text.isName value.toList then
    some (.fieldNotIdentifier spec.name value)
  else if spec.kind = .dottedName && !Text.passesLine Text.isDottedName value.toList then
    some (.fieldNotName spec.name value)
  else
    match spec.choices.filter (!·.contains value) with
    | some choices => some (.fieldNotChoice spec.name choices)
    | none =>
      if spec.kind = .params then
        match Param.parseList value with
        | .ok _ => none
        | .error e => some (.badParams spec.name e)
      else none

/-- A field that is not given. -/
def missingCause? (spec : FieldSpec) : Option IssueCause :=
  if spec.required then some (.fieldMissing spec.name) else none

/-- What is wrong with a field. The empty text counts as not given. -/
def fieldCause? (n : Node) (spec : FieldSpec) : Option IssueCause :=
  match n.data.get? spec.name with
  | none => missingCause? spec
  | some (.object _) => some (.fieldNotText spec.name)
  | some (.text value) => if value = "" then missingCause? spec else textCause? spec value

/-- The keys of the data that are no fields of the block. -/
def foreignKeys (n : Node) (type : BlockType) : List String :=
  n.data.keys.filter fun key => !(type.fields.map FieldSpec.name).contains key

/-- Fields that the block does not have, then what is wrong with those it has. -/
def nodeFieldIssues (n : Node) : List Issue :=
  match n.block? with
  | none => []
  | some type =>
    let causes := (foreignKeys n type).map (IssueCause.unknownField · n.type) ++
      type.fields.filterMap (fieldCause? n)
    causes.map fun cause => { cause, node := some n.id }

def fieldIssues (g : Graph) : List Issue := g.nodes.flatMap nodeFieldIssues

/-! ## All issues -/

/-- All issues of a graph, in order. -/
def validate (g : Graph) : Except Defect (List Issue) := do
  return g.typeIssues ++ g.edgeIssues ++ (← g.roleIssues) ++ g.fieldIssues

/-- Accept a graph without issues. -/
def ensureValid (g : Graph) : Except Failure Unit :=
  match g.validate with
  | .error defect => .error (.defect defect)
  | .ok [] => .ok ()
  | .ok issues => .error (.compile (.invalid issues))

end Blockflow.Graph
