import Blockflow.Proofs.Graph.Handles
import Blockflow.Proofs.Graph.Tidy
import Blockflow.Proofs.Program.Failure

/-!
# Well-formed graphs

What a graph has to be like is said here without the check: which types, edges, exits and data it
may have (`Graph.WellFormed`). The check looks at nodes, edges, exits and data one after the other,
and each pass leaves out what another one reports. Still nothing is left out by all of them: a graph
without issues is well formed, and a well-formed graph has no issues (`Graph.valid_iff_wellFormed`).

The check has no answer at all for a switch that has an object in place of its cases, and for no
other graph (`Graph.validate_eq_error_iff`).
-/

namespace Blockflow

/-! ## Exits -/

/-- The block has an exit of this role, where a switch has so many cases. -/
def BlockType.HasExit (cases : Nat) (type : BlockType) : Role → Prop
  | .next => True
  | .whenTrue | .whenFalse => type = .branch
  | .body => type.isLoop = true ∨ type.isDefinition = true
  | .case i => type = .switch ∧ i < cases
  | .default => type = .switch

/-- How many cases are listed in the data of a node. -/
def Node.caseCount (n : Node) : Nat :=
  match n.given "cases" with
  | .text s => (Expression.splitList s).length
  | .object _ => 0

/-- The exits listed for a block are those it has. -/
theorem BlockType.mem_exits {type : BlockType} {cases : List String} {role : Role} :
    role ∈ (type.exits cases).map RoleSpec.role ↔ type.HasExit cases.length role := by
  cases type with
  | switch =>
    have hcases : ∀ r, r ∈ (cases.mapIdx fun i value =>
        { role := .case i, description := "case " ++ value : RoleSpec }).map RoleSpec.role ↔
          ∃ i < cases.length, Role.case i = r := by
      intro r
      simp only [List.mem_map, List.mem_mapIdx]
      constructor
      · rintro ⟨_, ⟨i, hi, rfl⟩, rfl⟩
        exact ⟨i, hi, rfl⟩
      · rintro ⟨i, hi, rfl⟩
        exact ⟨_, ⟨i, hi, rfl⟩, rfl⟩
    rw [exits, List.map_append, List.mem_append, hcases]
    cases role <;> simp [HasExit, isLoop, isDefinition]
  | _ => cases role <;> simp [exits, HasExit, isLoop, isDefinition]

/-- The exits of a node, unless it is a switch with an object in place of its cases. -/
theorem Node.exits_eq_ok {n : Node} {type : BlockType} {allowed : List RoleSpec}
    (h : n.exits type = .ok allowed) {role : Role} :
    role ∈ allowed.map RoleSpec.role ↔ type.HasExit n.caseCount role := by
  unfold exits at h
  split at h
  next hswitch =>
    obtain ⟨cases, hcases, h⟩ := bind_eq_ok.mp h
    cases h
    have hcount : n.caseCount = cases.length := by
      unfold list at hcases
      obtain ⟨s, hs, hcases⟩ := bind_eq_ok.mp hcases
      cases hcases
      unfold caseCount
      cases hgiven : n.given "cases" with
      | text t =>
        rw [hgiven] at hs
        cases hs
        rfl
      | object members =>
        rw [hgiven] at hs
        cases hs
    rw [hcount]
    exact BlockType.mem_exits
  next hswitch =>
    cases h
    rw [BlockType.mem_exits]
    -- only the exits of a switch depend on its cases
    cases role <;> simp [BlockType.HasExit, hswitch]

/-! ## Data -/

/-- The text is one that a field of this kind takes. -/
def FieldKind.Takes (s : String) : FieldKind → Prop
  | .identifier => Text.isName s.toList = true
  | .dottedName => Text.isDottedName s.toList = true
  | .type => ∃ type, ValueType.ofDeclared? s = some type
  | .params => ∃ params, Param.parseList s = .ok params
  | .expression | .list => True

/-- The data of a node of this kind are in order: they are fields of the block, those that are
required are texts that are not empty, and those that are given are texts that the field takes. -/
structure Node.Filled (n : Node) (type : BlockType) : Prop where
  known : ∀ key ∈ n.data.keys, ∃ spec ∈ type.fields, spec.name = key
  required : ∀ spec ∈ type.fields, spec.required = true →
    ∃ s, n.data.get? spec.name = some (.text s) ∧ s ≠ ""
  given : ∀ spec ∈ type.fields, ∀ value, n.data.get? spec.name = some value →
    ∃ s, value = .text s ∧ (s ≠ "" → spec.kind.Takes s)

theorem Dict.mem_keys {α : Type} {key : String} {d : Dict α} :
    key ∈ d.keys ↔ ∃ value, d.get? key = some value := by
  induction d with
  | nil => simp [keys]
  | cons entry rest ih =>
    obtain ⟨k, v⟩ := entry
    rw [keys, List.map_cons, List.mem_cons, get?]
    by_cases hk : k = key
    · simp [hk]
    · rw [if_neg hk, ← ih]
      simp [Ne.symm hk, keys]

/-- Only the fields for types have choices. -/
theorem BlockType.choices_eq {type : BlockType} {spec : FieldSpec} (h : spec ∈ type.fields) :
    spec.choices = if spec.kind = .type then some ValueType.declarable.keys else none := by
  have hall : ∀ spec ∈ type.fields,
      spec.choices = if spec.kind = .type then some ValueType.declarable.keys else none := by
    cases type <;> decide
  exact hall spec h

namespace Graph

/-- The check of a tidy text passes exactly on the texts that the field takes. -/
theorem textCause?_eq_none_iff {type : BlockType} {spec : FieldSpec} (h : spec ∈ type.fields)
    {s : String} (htidy : Text.IsTidy s) : textCause? spec s = none ↔ spec.kind.Takes s := by
  have hchoices := BlockType.choices_eq h
  unfold textCause?
  cases hkind : spec.kind with
  | identifier => simp [hkind, hchoices, FieldKind.Takes, htidy.isName_eq]
  | dottedName => simp [hkind, hchoices, FieldKind.Takes, htidy.isDottedName_eq]
  | expression => simp [hkind, hchoices, FieldKind.Takes]
  | list => simp [hkind, hchoices, FieldKind.Takes]
  | params =>
    cases hparams : Param.parseList s with
    | ok params => simp [hkind, hchoices, FieldKind.Takes, hparams]
    | error e => simp [hkind, hchoices, FieldKind.Takes, hparams]
  | type =>
    have hmem : s ∈ ValueType.declarable.keys ↔ ∃ type, ValueType.ofDeclared? s = some type :=
      Dict.mem_keys
    rw [FieldKind.Takes, ← hmem]
    by_cases hs : s ∈ ValueType.declarable.keys <;> simp [hkind, hchoices, Option.filter, hs]

/-- The check of a field passes if it is given where it is required, and is a text that it takes. -/
theorem fieldCause?_eq_none_iff {type : BlockType} {spec : FieldSpec} (h : spec ∈ type.fields)
    {n : Node} (htidy : ∀ s, n.data.get? spec.name = some (.text s) → Text.IsTidy s) :
    fieldCause? n spec = none ↔
      (spec.required = true → ∃ s, n.data.get? spec.name = some (.text s) ∧ s ≠ "") ∧
      ∀ value, n.data.get? spec.name = some value →
        ∃ s, value = .text s ∧ (s ≠ "" → spec.kind.Takes s) := by
  unfold fieldCause? missingCause?
  cases hget : n.data.get? spec.name with
  | none => simp
  | some value =>
    cases value with
    | object members => simp
    | text s =>
      by_cases hs : s = ""
      · simp [hs]
      · simp [hs, textCause?_eq_none_iff h (htidy s hget)]

/-- A node has no issues in its fields exactly when its data are in order. -/
theorem nodeFieldIssues_eq_nil_iff {n : Node} {type : BlockType} (hb : n.block? = some type)
    (htidy : ∀ field s, n.data.get? field = some (.text s) → Text.IsTidy s) :
    nodeFieldIssues n = [] ↔ n.Filled type := by
  have hforeign : foreignKeys n type = [] ↔
      ∀ key ∈ n.data.keys, ∃ spec ∈ type.fields, spec.name = key := by
    simp [foreignKeys, List.filter_eq_nil_iff]
  have hcauses : type.fields.filterMap (fieldCause? n) = [] ↔
      ∀ spec ∈ type.fields, fieldCause? n spec = none := List.filterMap_eq_nil_iff
  unfold nodeFieldIssues
  simp only [hb, List.map_eq_nil_iff, List.append_eq_nil_iff, hforeign, hcauses]
  have hfield := fun spec (hspec : spec ∈ type.fields) =>
    fieldCause?_eq_none_iff hspec (htidy spec.name)
  constructor
  · rintro ⟨hknown, hfields⟩
    exact ⟨hknown, fun spec hspec => ((hfield spec hspec).mp (hfields spec hspec)).1,
      fun spec hspec => ((hfield spec hspec).mp (hfields spec hspec)).2⟩
  · intro h
    exact ⟨h.known, fun spec hspec =>
      (hfield spec hspec).mpr ⟨h.required spec hspec, h.given spec hspec⟩⟩

/-! ## Well-formed graphs -/

/-- What a graph has to be like. -/
structure WellFormed (g : Graph) : Prop where
  /-- every node is of a known kind -/
  kinds : ∀ n ∈ g.nodes, ∃ type, n.block? = some type
  edgeIds : (g.edges.map Edge.id).Nodup
  /-- both ends of an edge are nodes -/
  ends : ∀ e ∈ g.edges, (∃ n ∈ g.nodes, n.id = e.source) ∧ ∃ n ∈ g.nodes, n.id = e.target
  /-- the handle of an edge stands for an exit that its source has -/
  exits : ∀ e ∈ g.edges, ∃ role, Role.parse e.handle = .ok role ∧
    ∀ n ∈ g.nodes, n.id = e.source → ∀ type, n.block? = some type → type.HasExit n.caseCount role
  /-- no two edges leave a node in the same role -/
  apart : g.edges.Pairwise fun e f =>
    e.source = f.source → Role.parse e.handle ≠ Role.parse f.handle
  filled : ∀ n ∈ g.nodes, ∀ type, n.block? = some type → n.Filled type

variable {g : Graph}

theorem typeIssues_eq_nil_iff :
    g.typeIssues = [] ↔ ∀ n ∈ g.nodes, ∃ type, n.block? = some type := by
  simp [typeIssues, List.filter_eq_nil_iff, Option.ne_none_iff_exists']

/-- Nothing is reported as repeated if and only if there are no repetitions. -/
theorem no_repeats_iff {α : Type} [BEq α] [LawfulBEq α] {l : List α} :
    l.eraseDups.filter (1 < l.count ·) = [] ↔ l.Nodup := by
  refine ⟨nodup_of_no_repeats, fun h => List.filter_eq_nil_iff.mpr fun a _ => ?_⟩
  have := List.nodup_iff_count_le_one.mp h a
  simpa using this

/-- An end of an edge has no issue exactly when it is a node. -/
theorem endIssues_eq_nil_iff {e : Edge} {id : String} :
    g.endIssues e id = [] ↔ ∃ n ∈ g.nodes, n.id = id := by
  rw [← hasNode_iff]
  unfold endIssues
  split <;> simp_all

/-- A handle has no issue exactly when it stands for a role. -/
theorem handleIssues_eq_nil_iff {e : Edge} :
    g.handleIssues e = [] ↔ ∃ role, e.role = some role := by
  unfold handleIssues
  split <;> simp_all

/-- The edges have no issues exactly when their ids differ, their ends are nodes and their handles
stand for roles. -/
theorem edgeIssues_eq_nil_iff : g.edgeIssues = [] ↔ (g.edges.map Edge.id).Nodup ∧
    ∀ e ∈ g.edges, (∃ n ∈ g.nodes, n.id = e.source) ∧ (∃ n ∈ g.nodes, n.id = e.target) ∧
      ∃ role, e.role = some role := by
  rw [edgeIssues, List.append_eq_nil_iff, List.flatMap_eq_nil_iff, edgeIdIssues,
    List.map_eq_nil_iff, no_repeats_iff]
  refine and_congr_right fun _ => forall₂_congr fun e _ => ?_
  rw [List.append_eq_nil_iff, List.append_eq_nil_iff, endIssues_eq_nil_iff, endIssues_eq_nil_iff,
    handleIssues_eq_nil_iff, and_assoc]

/-- No field has an issue exactly when the data of all nodes are in order. -/
theorem fieldIssues_eq_nil_iff (htidy : g.Tidy) : g.fieldIssues = [] ↔
    ∀ n ∈ g.nodes, ∀ type, n.block? = some type → n.Filled type := by
  rw [fieldIssues, List.flatMap_eq_nil_iff]
  refine forall₂_congr fun n hn => ?_
  cases hb : n.block? with
  | none => simp [nodeFieldIssues, hb]
  | some type => simp [nodeFieldIssues_eq_nil_iff hb (htidy n hn)]

end Graph

/-! ## Nodes whose exits cannot be told -/

/-- Has the node an object in a field? The empty object counts as not given. -/
def Node.GivesObject (n : Node) (field : String) : Prop :=
  ∃ members, n.data.get? field = some (.object members) ∧ members ≠ []

/-- The entries of a list can be told unless an object is given in its place. -/
theorem Node.list_eq_error_iff {n : Node} {field : String} {defect : Defect} :
    n.list field = .error defect ↔ defect = .notText "dict" ∧ n.GivesObject field := by
  unfold list given GivesObject
  cases hget : n.data.get? field with
  | none => simp [FieldValue.given, FieldValue.expression, bind, Except.bind, pure, Except.pure]
  | some value =>
    cases value with
    | text s => simp [FieldValue.given, FieldValue.expression, bind, Except.bind, pure, Except.pure]
    | object members =>
      cases members with
      | nil => simp [FieldValue.given, FieldValue.expression, bind, Except.bind, pure, Except.pure]
      | cons entry rest =>
        simp [FieldValue.given, FieldValue.expression, bind, Except.bind, eq_comm]

/-- The exits of a node cannot be told only if it is a switch with an object for its cases. -/
theorem Node.exits_eq_error_iff {n : Node} {type : BlockType} {defect : Defect} :
    n.exits type = .error defect ↔
      defect = .notText "dict" ∧ type = .switch ∧ n.GivesObject "cases" := by
  unfold exits
  by_cases htype : type = .switch
  · simp [htype, bind_eq_error, list_eq_error_iff, pure, Except.pure]
  · simp [htype]

namespace Graph

variable {g : Graph} {n : Node} {type : BlockType}

theorem nodeRoleIssues_eq_error_iff {defect : Defect} :
    g.nodeRoleIssues n = .error defect ↔
      defect = .notText "dict" ∧ n.block? = some .switch ∧ n.GivesObject "cases" := by
  unfold nodeRoleIssues
  cases hb : n.block? with
  | none => simp
  | some type => simp [bind_eq_error, Node.exits_eq_error_iff, pure, Except.pure]

/-- **The check has an answer unless a switch has an object in place of its cases.** -/
theorem validate_eq_error_iff {defect : Defect} :
    g.validate = .error defect ↔ defect = .notText "dict" ∧
      ∃ n ∈ g.nodes, n.block? = some .switch ∧ n.GivesObject "cases" := by
  have hvalidate : g.validate = .error defect ↔ g.nodes.mapM g.nodeRoleIssues = .error defect := by
    unfold validate roleIssues
    cases g.nodes.mapM g.nodeRoleIssues with
    | error d => simp [Except.map, bind, Except.bind]
    | ok issues => simp [Except.map, bind, Except.bind, pure, Except.pure]
  rw [hvalidate]
  constructor
  · intro h
    obtain ⟨n, hn, h⟩ := mapM_eq_error_mem h
    obtain ⟨hdefect, hhides⟩ := nodeRoleIssues_eq_error_iff.mp h
    exact ⟨hdefect, n, hn, hhides⟩
  · rintro ⟨rfl, n, hn, hhides⟩
    have herror : g.nodeRoleIssues n = .error (.notText "dict") :=
      nodeRoleIssues_eq_error_iff.mpr ⟨rfl, hhides⟩
    cases hm : g.nodes.mapM g.nodeRoleIssues with
    | ok issues =>
      obtain ⟨is, -, hok⟩ := mapM_eq_ok_mem hm n hn
      cases herror.symm.trans hok
    | error d =>
      -- every node that fails fails in the same way
      obtain ⟨m, -, hm⟩ := mapM_eq_error_mem hm
      rw [(nodeRoleIssues_eq_error_iff.mp hm).1]

/-! ## The exits of a graph -/

/-- The edges have the roles that their handles stand for. -/
def Labelled (g : Graph) : Prop :=
  ∀ e ∈ g.edges, ∀ role, e.role = some role ↔ Role.parse e.handle = .ok role

/-- Loading gives the edges the roles of their handles. -/
theorem labelled_of_load {d : Diagram} (h : Graph.load d = .ok g) : g.Labelled := by
  intro e he role
  rw [(load_eq_ok h).2] at he
  obtain ⟨drawn, -, rfl⟩ := List.mem_map.mp he
  exact Edge.role_ofDrawn_eq_some_iff

theorem nodeRoleIssues_eq_nil_iff (hb : n.block? = some type) :
    g.nodeRoleIssues n = .ok [] ↔ ∃ allowed, n.exits type = .ok allowed ∧
      g.foreignExitIssues n allowed = [] ∧ g.sharedExitIssues n = [] := by
  unfold nodeRoleIssues
  simp only [hb, bind_eq_ok, pure, Except.pure, Except.ok.injEq, List.append_eq_nil_iff]

theorem roleIssues_eq_nil_iff :
    g.roleIssues = .ok [] ↔ ∀ n ∈ g.nodes, g.nodeRoleIssues n = .ok [] := by
  unfold roleIssues
  constructor
  · intro h n hn
    cases hm : g.nodes.mapM g.nodeRoleIssues with
    | error defect => rw [hm] at h; cases h
    | ok issues =>
      rw [hm] at h
      obtain ⟨is, his, hnode⟩ := mapM_eq_ok_mem hm n hn
      rw [hnode, List.flatten_eq_nil_iff.mp (Except.ok.inj h) is his]
  · intro h
    have hm : g.nodes.mapM g.nodeRoleIssues = .ok (g.nodes.map fun _ => []) := by
      generalize g.nodes = nodes at h
      induction nodes with
      | nil => rfl
      | cons n rest ih =>
        rw [List.mapM_cons, h n List.mem_cons_self, ih fun m hm => h m (List.mem_cons_of_mem _ hm)]
        rfl
    rw [hm]
    refine congrArg Except.ok (List.flatten_eq_nil_iff.mpr fun is his => ?_)
    obtain ⟨n, -, rfl⟩ := List.mem_map.mp his
    rfl

/-- No exit is foreign if each role of an edge from the node is among the allowed ones. -/
theorem foreignExitIssues_eq_nil_iff {allowed : List RoleSpec} :
    g.foreignExitIssues n allowed = [] ↔
      ∀ e role, (e, role) ∈ g.exitEdges n → role ∈ allowed.map RoleSpec.role := by
  simp [foreignExitIssues, List.filter_eq_nil_iff]

section

variable (htargets : ∀ e ∈ g.edges, ∃ m ∈ g.nodes, m.id = e.target)

include htargets

/-- Where all targets are nodes, the check looks at all edges with a role. -/
theorem exitEdges_eq :
    g.exitEdges n = (g.outgoing n.id).filterMap fun e => e.role.map (e, ·) := by
  unfold exitEdges
  refine List.filterMap_congr fun e he => ?_
  rw [if_pos (hasNode_iff.mpr (htargets e (List.mem_filter.mp he).1))]

theorem mem_exitEdges_iff {e : Edge} {role : Role} :
    (e, role) ∈ g.exitEdges n ↔ e ∈ g.edges ∧ e.source = n.id ∧ e.role = some role := by
  rw [exitEdges_eq htargets, List.mem_filterMap]
  constructor
  · rintro ⟨f, hf, heq⟩
    obtain ⟨r, hr, heq⟩ := Option.map_eq_some_iff.mp heq
    cases heq
    obtain ⟨hf, hsource⟩ := List.mem_filter.mp hf
    exact ⟨hf, by simpa using hsource, hr⟩
  · rintro ⟨he, hsource, hrole⟩
    exact ⟨e, List.mem_filter.mpr ⟨he, by simpa using hsource⟩, by rw [hrole]; rfl⟩

/-- No exit is shared if no two edges from the node have the same role. -/
theorem sharedExitIssues_eq_nil_iff :
    g.sharedExitIssues n = [] ↔ g.edges.Pairwise fun e f =>
      e.source = n.id → f.source = n.id → ∀ role, e.role = some role → f.role ≠ some role := by
  have hroles : (g.exitEdges n).map (·.2) = (g.outgoing n.id).filterMap Edge.role := by
    rw [exitEdges_eq htargets, List.map_filterMap]
    refine List.filterMap_congr fun e _ => ?_
    cases e.role <;> rfl
  unfold sharedExitIssues
  simp only [List.map_eq_nil_iff, no_repeats_iff, hroles]
  rw [List.Nodup, List.pairwise_filterMap, outgoing, List.pairwise_filter]
  refine List.Pairwise.iff fun {e f} => ?_
  simp only [decide_eq_true_eq]
  refine imp_congr_right fun _ => imp_congr_right fun _ => ?_
  constructor
  · intro h role he hf
    exact h role he role hf rfl
  · rintro h role he role' hf rfl
    exact h role he hf

end

/-! ## What the check accepts -/

/-- A well-formed graph is valid. -/
theorem WellFormed.valid (h : g.WellFormed) (hlabelled : g.Labelled) (htidy : g.Tidy) :
    g.Valid := by
  have htargets : ∀ e ∈ g.edges, ∃ m ∈ g.nodes, m.id = e.target := fun e he => (h.ends e he).2
  have hroles : g.roleIssues = .ok [] := by
    rw [roleIssues_eq_nil_iff]
    intro n hn
    obtain ⟨type, hb⟩ := h.kinds n hn
    rw [nodeRoleIssues_eq_nil_iff hb]
    have hallowed : ∃ allowed, n.exits type = .ok allowed := by
      cases hexits : n.exits type with
      | ok allowed => exact ⟨allowed, rfl⟩
      | error defect =>
        -- the cases of a switch are required, so they are a text
        obtain ⟨-, rfl, members, hmembers, -⟩ := Node.exits_eq_error_iff.mp hexits
        obtain ⟨s, hs, -⟩ := (h.filled n hn .switch hb).required
          { name := "cases", kind := .list, description := "Comma-separated case values" }
          (by decide) rfl
        cases hmembers.symm.trans hs
    obtain ⟨allowed, hallowed⟩ := hallowed
    refine ⟨allowed, hallowed, ?_, ?_⟩
    · rw [foreignExitIssues_eq_nil_iff]
      intro e role hexit
      obtain ⟨he, hsource, hrole⟩ := (mem_exitEdges_iff htargets).mp hexit
      obtain ⟨role', hparse, hhas⟩ := h.exits e he
      rw [hlabelled e he, hparse] at hrole
      cases hrole
      exact (Node.exits_eq_ok hallowed).mpr (hhas n hn hsource.symm type hb)
    · rw [sharedExitIssues_eq_nil_iff htargets]
      refine h.apart.imp_of_mem fun {e f} he hf hapart hse hsf role hre hrf => ?_
      refine hapart (hse.trans hsf.symm) ?_
      rw [(hlabelled e he role).mp hre, (hlabelled f hf role).mp hrf]
  have hedges : g.edgeIssues = [] := by
    refine edgeIssues_eq_nil_iff.mpr ⟨h.edgeIds, fun e he => ?_⟩
    obtain ⟨role, hparse, -⟩ := h.exits e he
    exact ⟨(h.ends e he).1, (h.ends e he).2, role, (hlabelled e he role).mpr hparse⟩
  unfold Valid validate
  rw [typeIssues_eq_nil_iff.mpr h.kinds, hedges, hroles,
    (fieldIssues_eq_nil_iff htidy).mpr h.filled]
  rfl

/-- An edge is known by its source and its role. -/
theorem Valid.edge_eq_of_role (h : g.Valid) {e f : Edge} {role : Role} (he : e ∈ g.edges)
    (hf : f ∈ g.edges) (hsource : e.source = f.source) (hre : e.role = some role)
    (hrf : f.role = some role) : e = f := by
  have hedge := h.edgeFor_eq he hre
  rw [hsource, h.edgeFor_eq hf hrf] at hedge
  exact (Option.some.inj hedge).symm

/-- A valid graph is well-formed. -/
theorem Valid.wellFormed (h : g.Valid) (hlabelled : g.Labelled) (htidy : g.Tidy) :
    g.WellFormed where
  kinds _ hn := h.exists_block hn
  edgeIds := h.edgeIds_nodup
  ends _ he := ⟨h.exists_source he, h.exists_target he⟩
  exits e he := by
    obtain ⟨role, hrole⟩ := h.exists_role he
    refine ⟨role, (hlabelled e he role).mp hrole, fun n hn hsource type hb => ?_⟩
    obtain ⟨allowed, hallowed, hforeign, -⟩ := h.role_issues hn hb
    rw [← Node.exits_eq_ok hallowed]
    exact foreignExitIssues_eq_nil_iff.mp hforeign e role (h.mem_exitEdges he hsource.symm hrole)
  apart := by
    have hids := List.pairwise_map.mp h.edgeIds_nodup
    refine hids.imp_of_mem fun {e f} he hf hids hsource hparse => ?_
    obtain ⟨role, hrole⟩ := h.exists_role he
    have hrole' : f.role = some role := by
      rwa [hlabelled f hf, ← hparse, ← hlabelled e he]
    exact hids (congrArg Edge.id (h.edge_eq_of_role he hf hsource hrole hrole'))
  filled := (fieldIssues_eq_nil_iff htidy).mp h.parts.2.2.2

/-- **The check accepts exactly the well-formed graphs.** -/
theorem valid_iff_wellFormed (hlabelled : g.Labelled) (htidy : g.Tidy) : g.Valid ↔ g.WellFormed :=
  ⟨fun h => h.wellFormed hlabelled htidy, fun h => h.valid hlabelled htidy⟩

/-- Where at most one entry is accepted, that entry is the one that is found. -/
theorem filter_eq_find? {α : Type} {p : α → Bool} : ∀ {l : List α},
    l.Pairwise (fun a b => p a = true → p b = false) → l.filter p = (l.find? p).toList
  | [], _ => rfl
  | a :: rest, h => by
    obtain ⟨ha, hrest⟩ := List.pairwise_cons.mp h
    by_cases hp : p a = true
    · have hnil : rest.filter p = [] := by
        rw [List.filter_eq_nil_iff]
        intro b hb
        rw [ha b hb hp]
        simp
      rw [List.filter_cons_of_pos hp, List.find?_cons_of_pos hp, hnil]
      rfl
    · rw [List.filter_cons_of_neg hp, List.find?_cons_of_neg hp, filter_eq_find? hrest]

/-- From a node and a role there is the edge that is followed, and no other. -/
theorem Valid.filter_eq_edgeFor (h : g.Valid) (id : String) (role : Role) :
    g.edges.filter (fun e => e.source = id ∧ e.role = some role) = (g.edgeFor id role).toList := by
  have hsplit : g.edges.filter (fun e => e.source = id ∧ e.role = some role) =
      (g.outgoing id).filter (·.role = some role) := by
    rw [outgoing, List.filter_filter]
    refine List.filter_congr fun e _ => ?_
    rw [Bool.decide_and, Bool.and_comm]
  rw [hsplit, edgeFor, filter_eq_find?]
  rw [outgoing, List.pairwise_filter]
  refine (List.pairwise_map.mp h.edgeIds_nodup).imp_of_mem fun {e f} he hf hids hse hsf hre => ?_
  by_contra hrf
  simp only [decide_eq_true_eq, decide_eq_false_iff_not, not_not] at hse hsf hre hrf
  exact hids (congrArg Edge.id (h.edge_eq_of_role he hf (hse.trans hsf.symm) hre hrf))

/-- **The check of a graph that was loaded is exact.** It has no answer if and only if a switch has
a non-empty object in place of its cases, and there are no issues if and only if the graph is well
formed. The edge that is found for a node and a role is then the only one that leaves the node in
that role. -/
theorem validate_exact {d : Diagram} (hload : Graph.load d = .ok g) :
    (∀ defect, g.validate = .error defect ↔ defect = .notText "dict" ∧
      ∃ n ∈ g.nodes, n.block? = some .switch ∧ n.GivesObject "cases") ∧
    (g.validate = .ok [] ↔ g.WellFormed) ∧
    (g.validate = .ok [] → ∀ id role,
      g.edges.filter (fun e => e.source = id ∧ e.role = some role) =
        (g.edgeFor id role).toList) :=
  ⟨fun _ => validate_eq_error_iff,
    valid_iff_wellFormed (labelled_of_load hload) (tidy_of_load hload),
    fun h => Valid.filter_eq_edgeFor h⟩

/-- A switch with two cases, drawn with several spellings of handles, and blocks whose data are
typed. -/
def menu : Diagram where
  nodes :=
    [{ id := "size", type := "assign"
       data := [("name", .str " n "), ("value", .int 3), ("dataType", .str "long"),
         ("label", .str "Size")] },
     { id := "pick", type := "switch"
       data := [("subject", .str "n"), ("cases", .arr [.int 1, .str "f(2, 3)"])] },
     { id := "one", type := "functionCall", data := [("name", .str "o.run"), ("args", .null)] },
     { id := "two", type := "print", data := [("value", .bool true)] },
     { id := "add", type := "functionDefine"
       data := [("name", .str "add"), ("params", .arr [.str "a", .str "int b"])] }]
  edges :=
    [{ source := "size", target := "pick" },
     { source := "pick", target := "one", sourceHandle := some "CASE-0" },
     { source := "pick", target := "two", sourceHandle := some " case1 " },
     { source := "pick", target := "add", sourceHandle := some "after" }]

/-- A switch with several spellings of handles is valid, and one edge leads from its second case. -/
theorem validate_exact_menu :
    ∃ g, Graph.load menu = .ok g ∧ g.validate = .ok [] ∧ g.WellFormed ∧
      g.edges.filter (fun e => e.source = "pick" ∧ e.role = some (.case 1)) =
        (g.edgeFor "pick" (.case 1)).toList := by
  have hcheck : (Graph.load menu).toOption.any (fun g => decide (g.validate = .ok [])) = true := by
    decide
  obtain ⟨g, hload, hvalid⟩ := exists_ok_of_any hcheck
  have hvalid := of_decide_eq_true hvalid
  obtain ⟨-, hwellFormed, honly⟩ := validate_exact hload
  exact ⟨g, hload, hvalid, hwellFormed.mp hvalid, honly hvalid "pick" (.case 1)⟩

end Graph

end Blockflow
