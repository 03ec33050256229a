import Blockflow.Code.Braced
import Blockflow.Proofs.Expression.Characters
import Blockflow.Proofs.Program.Names

/-!
# Braces in texts

A text is balanced if every beginning of it has at least as many opening braces as closing ones, and
the whole text has as many (`Balanced`). Parts of a balanced text need not be balanced: a part leads
from a number of open braces to another one (`Leads`), and such parts are put together one after the
other.

The texts that are written for a statement have no braces, apart from those around the values of an
array, if there are none in its names and expressions (`balanced_leaf`).
-/

namespace Blockflow

/-- The expressions in a statement. The blocks inside of it do not count. -/
def Statement.expressions : Statement → List String
  | .declare d => [d.value.shown]
  | .assign _ value _ | .print value _ => [value.shown]
  | .array _ elements _ _ => elements
  | .call _ arguments _ | .create _ _ arguments _ => arguments
  | .branch cond _ _ _ | .whileLoop cond _ _ => [cond.shown]
  | .switch subject _ cases _ _ => subject :: cases.map Prod.fst
  | .forLoop init cond step _ _ _ => [init, cond.shown, step.shown]
  | .foreign _ => []

/-- The expressions in a part; a definition has none of its own. -/
def Part.expressions : Part → List String
  | .statement s => s.expressions
  | .function _ | .classDef _ => []

namespace Braced

open Expression

/-! ## Balanced texts -/

/-- The text closes what it opens, and nothing else. -/
structure Balanced (text : List Char) : Prop where
  le : ∀ start, start <+: text → start.count '\x7d' ≤ start.count '\x7b'
  eq : text.count '\x7d' = text.count '\x7b'

/-- If `d` braces are open before the text, then `e` are open after it, and the text closes none
that is not open. -/
structure Leads (d e : Nat) (text : List Char) : Prop where
  le : ∀ start, start <+: text → start.count '\x7d' ≤ d + start.count '\x7b'
  eq : e + text.count '\x7d' = d + text.count '\x7b'

/-- There are no braces in the text. -/
def Braceless (text : String) : Prop := '\x7b' ∉ text.toList ∧ '\x7d' ∉ text.toList

instance (text : String) : Decidable (Braceless text) :=
  inferInstanceAs (Decidable ('\x7b' ∉ text.toList ∧ '\x7d' ∉ text.toList))

/-- A text is balanced if it leads from no open brace to none. -/
theorem leads_zero_iff {text : List Char} : Leads 0 0 text ↔ Balanced text := by
  refine ⟨fun h => ⟨fun start hstart => ?_, ?_⟩, fun h => ⟨fun start hstart => ?_, ?_⟩⟩
  · have := h.le start hstart
    omega
  · have := h.eq
    omega
  · have := h.le start hstart
    omega
  · have := h.eq
    omega

namespace Leads

variable {d e f : Nat} {text text' : List Char}

theorem nil : Leads d d [] where
  le start hstart := by
    rw [List.prefix_nil.mp hstart]
    exact Nat.zero_le _
  eq := rfl

/-- What leads to a depth can be followed by what leads on from it. -/
theorem append (h : Leads d e text) (h' : Leads e f text') : Leads d f (text ++ text') where
  le start hstart := by
    -- a beginning of both texts ends in the first one, or contains it
    rcases List.prefix_or_prefix_of_prefix hstart (List.prefix_append text text') with hfirst | hall
    · exact h.le start hfirst
    · obtain ⟨rest, rfl⟩ := hall
      have hrest := h'.le rest ((List.prefix_append_right_inj text).mp hstart)
      have heq := h.eq
      rw [List.count_append, List.count_append]
      omega
  eq := by
    have heq := h.eq
    have heq' := h'.eq
    rw [List.count_append, List.count_append]
    omega

/-- More braces may be open all the while. -/
theorem shift (h : Leads d e text) (k : Nat) : Leads (d + k) (e + k) text where
  le start hstart := by
    have := h.le start hstart
    omega
  eq := by
    have := h.eq
    omega

/-- A text without braces stays at its depth. -/
theorem braceless {s : String} (h : Braceless s) : Leads d d s.toList where
  le start hstart := by
    have hnone : '\x7d' ∉ start := fun hmem => h.2 (hstart.subset hmem)
    rw [List.count_eq_zero_of_not_mem hnone]
    exact Nat.zero_le _
  eq := by rw [List.count_eq_zero_of_not_mem h.1, List.count_eq_zero_of_not_mem h.2]

theorem opening : Leads d (d + 1) ['\x7b'] where
  le start hstart := by
    have hnone : '\x7d' ∉ start := fun hmem => by simpa using hstart.subset hmem
    rw [List.count_eq_zero_of_not_mem hnone]
    exact Nat.zero_le _
  eq := rfl

theorem closing : Leads (d + 1) d ['\x7d'] where
  le start hstart := by
    have := hstart.sublist.count_le '\x7d'
    simp only [List.count_singleton_self] at this
    omega
  eq := rfl

/-- Only the braces of a text matter. -/
theorem filter_iff :
    Leads d e (text.filter fun c => c = '\x7b' || c = '\x7d') ↔ Leads d e text := by
  have hcount : ∀ (c : Char) (s : List Char), (c = '\x7b' || c = '\x7d') = true →
      (s.filter fun c => c = '\x7b' || c = '\x7d').count c = s.count c :=
    fun c s hc => List.count_filter hc
  refine ⟨fun h => ⟨fun start hstart => ?_, ?_⟩, fun h => ⟨fun start hstart => ?_, ?_⟩⟩
  · have := h.le _ (hstart.filter _)
    rwa [hcount _ _ rfl, hcount _ _ rfl] at this
  · have := h.eq
    rwa [hcount _ _ rfl, hcount _ _ rfl] at this
  · obtain ⟨start', hstart', rfl⟩ := List.prefix_filter_iff.mp hstart
    rw [hcount _ _ rfl, hcount _ _ rfl]
    exact h.le start' hstart'
  · rw [hcount _ _ rfl, hcount _ _ rfl]
    exact h.eq

end Leads

/-- A balanced text stays at its depth, whatever it is. -/
theorem Balanced.leads {d : Nat} {text : List Char} (h : Balanced text) : Leads d d text := by
  have := (leads_zero_iff.mpr h).shift d
  rwa [Nat.zero_add] at this

theorem Braceless.balanced {text : String} (h : Braceless text) : Balanced text.toList :=
  leads_zero_iff.mp (.braceless h)

/-! ## The text of lines -/

/-- The characters of lines without indentation. -/
def chars (lines : List Line) : List Char := lines.flatMap fun l => l.text.toList

theorem chars_append (lines lines' : List Line) :
    chars (lines ++ lines') = chars lines ++ chars lines' :=
  List.flatMap_append

/-- The level of lines does not matter for their characters. -/
theorem chars_deepen (lines : List Line) : chars (deepen lines) = chars lines := by
  rw [chars, deepen, List.flatMap_map]
  rfl

theorem chars_of_forall_isBlank {lines : List Line} (h : ∀ l ∈ lines, l.isBlank = true) :
    chars lines = [] := by
  refine List.flatMap_eq_nil_iff.mpr fun l hl => ?_
  have hempty : l.text = "" := String.isEmpty_iff.mp (h l hl)
  rw [hempty]
  rfl

/-- What is written of lines without blank lines at the end, apart from the indentation. -/
theorem chars_dropBlank (lines : List Line) :
    chars (lines.reverse.dropWhile Line.isBlank).reverse = chars lines := by
  have hsplit : lines = (lines.reverse.dropWhile Line.isBlank).reverse ++
      (lines.reverse.takeWhile Line.isBlank).reverse := by
    rw [← List.reverse_append, List.takeWhile_append_dropWhile, List.reverse_reverse]
  have hblank : chars (lines.reverse.takeWhile Line.isBlank).reverse = [] :=
    chars_of_forall_isBlank fun l hl => List.mem_takeWhile_imp (List.mem_reverse.mp hl)
  calc chars (lines.reverse.dropWhile Line.isBlank).reverse
    _ = chars ((lines.reverse.dropWhile Line.isBlank).reverse ++
        (lines.reverse.takeWhile Line.isBlank).reverse) := by
      rw [chars_append, hblank, List.append_nil]
    _ = chars lines := by rw [← hsplit]

/-- Indentation is blanks only, so it does not matter for other characters. -/
theorem filter_write {p : Char → Bool} (hspace : p ' ' = false) (l : Line) :
    l.write.toList.filter p = l.text.toList.filter p := by
  unfold Line.write
  split
  next hblank => rw [String.isEmpty_iff.mp hblank]
  next =>
    rw [String.toList_append, List.filter_append, String.toList_ofList]
    simp [hspace]

/-- Blanks and line breaks are added to the characters of lines, and nothing else. -/
theorem filter_writeLines {p : Char → Bool} (hspace : p ' ' = false) (hbreak : p '\n' = false)
    (lines : List Line) : (writeLines lines).toList.filter p = (chars lines).filter p := by
  rw [← chars_dropBlank lines, writeLines, String.toList_join, List.flatMap_map, chars,
    List.filter_flatMap, List.filter_flatMap]
  congr 1
  funext l
  rw [String.toList_append, List.filter_append, filter_write hspace]
  simp [hbreak]

/-- Lines that are balanced are written as a balanced text. -/
theorem Balanced.writeLines {lines : List Line} (h : Balanced (chars lines)) :
    Balanced (writeLines lines).toList := by
  have hfilter := Leads.filter_iff.mpr (leads_zero_iff.mpr h)
  rw [← filter_writeLines rfl rfl] at hfilter
  exact leads_zero_iff.mp (Leads.filter_iff.mp hfilter)

/-! ## Texts of statements -/

/-- There are no braces in the names and in the expressions of a part. -/
structure IsBraceless (q : Part) : Prop where
  names : ∀ name ∈ q.names, Braceless name
  expressions : ∀ text ∈ q.expressions, Braceless text

/-- There are no braces in a text if there are none in its halves. -/
theorem braceless_append {s t : String} : Braceless (s ++ t) ↔ Braceless s ∧ Braceless t := by
  simp only [Braceless, String.toList_append, List.mem_append, not_or]
  exact and_and_and_comm

/-- A text whose characters come from a text without braces, or are no braces, has no braces. -/
theorem Braceless.of_forall {s t : String} (h : Braceless s)
    (hmem : ∀ c ∈ t.toList, c ∈ s.toList ∨ c ≠ '\x7b' ∧ c ≠ '\x7d') : Braceless t := by
  refine ⟨fun hopen => ?_, fun hclose => ?_⟩
  · rcases hmem _ hopen with hmem | hmem
    · exact h.1 hmem
    · exact hmem.1 rfl
  · rcases hmem _ hclose with hmem | hmem
    · exact h.2 hmem
    · exact hmem.2 rfl

/-- There are no braces in a name. -/
theorem Braceless.of_passesLine {name : String}
    (h : Text.passesLine Text.isDottedName name.toList = true) : Braceless name := by
  refine ⟨fun hopen => ?_, fun hclose => ?_⟩
  · exact absurd (Text.isNameChar_of_passesLine h hopen) (by decide)
  · exact absurd (Text.isNameChar_of_passesLine h hclose) (by decide)

/-- Texts without braces stay so with a separator between them. -/
theorem braceless_intercalate {separator : String} (hsep : Braceless separator) :
    ∀ {texts : List String}, (∀ t ∈ texts, Braceless t) → Braceless (separator.intercalate texts)
  | [], _ => (by decide : Braceless "")
  | [t], h => by
    have ht := h t List.mem_cons_self
    simpa using ht
  | t :: u :: rest, h => by
    obtain ⟨ht, hrest⟩ := List.forall_mem_cons.mp h
    have ih := braceless_intercalate hsep hrest
    rw [String.intercalate_cons_cons]
    simp [braceless_append, ht, hsep, ih]

theorem braceless_commaList {texts : List String} (h : ∀ t ∈ texts, Braceless t) :
    Braceless (commaList texts) :=
  braceless_intercalate (by decide) h

/-- A text with a pair of braces in it. -/
theorem balanced_between {before inside after : String} (hbefore : Braceless before)
    (hinside : Braceless inside) (hafter : Braceless after) :
    Balanced (before ++ "\x7b" ++ inside ++ "\x7d" ++ after).toList := by
  simp only [String.toList_append]
  exact leads_zero_iff.mp (((((Leads.braceless hbefore).append .opening).append
    (.braceless hinside)).append .closing).append (.braceless hafter))

namespace Site

variable {site : Site}

/-- Respelling brings no braces into an expression. -/
theorem braceless_expr {text : String} (h : Braceless text) : Braceless (site.expr text) := by
  have hopen : '\x7b' ∉ spellingChars := by decide
  have hclose : '\x7d' ∉ spellingChars := by decide
  refine h.of_forall fun c hc => (mem_spell hc).imp_right fun hspelling => ⟨?_, ?_⟩
  · exact fun heq => hopen (heq ▸ hspelling)
  · exact fun heq => hclose (heq ▸ hspelling)

theorem braceless_args {texts : List String} (h : ∀ t ∈ texts, Braceless t) :
    Braceless (site.args texts) :=
  braceless_commaList (List.forall_mem_map.mpr fun t ht => braceless_expr (h t ht))

/-- No type has a brace in its name. -/
theorem braceless_typeName (place : TypePlace) (type : ValueType) :
    Braceless (site.typeName place type) := by
  unfold typeName
  cases site.dialect <;> cases place <;> cases type <;> decide

theorem braceless_callTarget {name : String} (h : Braceless name) :
    Braceless (site.callTarget name) := by
  have hmain : ∀ main ∈ site.dialect.mainClass?, Braceless main := by
    cases site.dialect <;> decide
  unfold callTarget
  split
  next main heq =>
    split
    next => simp +decide [braceless_append, hmain main heq, h]
    next => exact h
  next => exact h

/-- A printed value brings no braces. -/
theorem braceless_printText {value : String} (h : Braceless value) :
    Braceless (site.printText value) := by
  unfold printText
  split
  next => simp +decide [braceless_append, braceless_expr h]
  next => simp +decide [braceless_append, braceless_expr h]
  next =>
    have hparts : ∀ part ∈ (splitConcat? value).getD [value], Braceless part := by
      intro part hpart
      cases hsplit : splitConcat? value with
      | none =>
        rw [hsplit] at hpart
        rwa [List.mem_singleton.mp hpart]
      | some parts =>
        rw [hsplit] at hpart
        refine h.of_forall fun c hc => ?_
        rcases mem_of_splitConcat? hsplit hpart hc with hc | rfl | rfl
        · exact Or.inl hc
        · exact Or.inr (by decide)
        · exact Or.inr (by decide)
    have hchain : Braceless
        (" << ".intercalate (((splitConcat? value).getD [value]).map site.expr)) :=
      braceless_intercalate (by decide)
        (List.forall_mem_map.mpr fun part hpart => braceless_expr (hparts part hpart))
    simp +decide [braceless_append, hchain]

/-- The creation of an object brings no braces. -/
theorem braceless_createText {className name : String} {arguments : List String}
    (hclass : Braceless className) (hname : Braceless name) (h : ∀ t ∈ arguments, Braceless t) :
    Braceless (site.createText className name arguments) := by
  have hargs : Braceless (site.args arguments) := braceless_args h
  unfold createText
  split
  next => split <;> simp +decide [braceless_append, hclass, hname, hargs]
  all_goals simp +decide [braceless_append, hclass, hname, hargs]

/-- The values of an array stand between braces. -/
theorem balanced_arrayText {name : String} {elements : List String} (type : ValueType)
    (hname : Braceless name) (h : ∀ t ∈ elements, Braceless t) :
    Balanced (site.arrayText name elements type).toList := by
  have htype : Braceless (site.typeName .element type) := braceless_typeName _ _
  have hargs : Braceless (site.args elements) := braceless_args h
  have harray : ∀ {inside : String}, Braceless inside → Balanced (site.typeName .element type ++
      "[] " ++ name ++ " = " ++ "\x7b" ++ inside ++ "\x7d" ++ ";").toList := fun hinside =>
    balanced_between (by simp +decide [braceless_append, htype, hname]) hinside (by decide)
  unfold arrayText
  split
  next => simpa using harray hargs
  next =>
    have hvector : Balanced ("std::vector<" ++ site.typeName .element type ++ "> " ++ name ++
        " = " ++ "\x7b" ++ site.args elements ++ "\x7d" ++ ";").toList :=
      balanced_between (by simp +decide [braceless_append, htype, hname]) hargs (by decide)
    simpa using hvector
  next =>
    split
    next => simpa using harray (show Braceless " " by decide)
    next =>
      have hinside : Braceless (" " ++ site.args elements ++ " ") := by
        simp +decide [braceless_append, hargs]
      simpa using harray hinside

/-- **A statement of one line is balanced.** -/
theorem balanced_leaf {s : Statement} (hs : IsBraceless (.statement s)) {text : String}
    (h : site.leaf? s = some text) : Balanced text.toList := by
  obtain ⟨hnames, hexprs⟩ := hs
  cases s with
  | declare d =>
    cases h
    have hname := hnames d.name List.mem_cons_self
    have hvalue : Braceless (site.expr d.value.shown) :=
      braceless_expr (hexprs _ List.mem_cons_self)
    exact Braceless.balanced (by simp +decide [braceless_append, braceless_typeName, hname, hvalue])
  | assign name value node =>
    cases h
    have hname := hnames name.shown List.mem_cons_self
    have hvalue : Braceless (site.expr value.shown) :=
      braceless_expr (hexprs _ List.mem_cons_self)
    exact Braceless.balanced (by simp +decide [braceless_append, hname, hvalue])
  | array name elements type node =>
    cases h
    exact balanced_arrayText type (hnames _ List.mem_cons_self) hexprs
  | print value node =>
    cases h
    exact (braceless_printText (hexprs _ List.mem_cons_self)).balanced
  | call name arguments node =>
    cases h
    have hname : Braceless (site.callTarget name) :=
      braceless_callTarget (hnames _ List.mem_cons_self)
    have hargs : Braceless (site.args arguments) := braceless_args hexprs
    exact Braceless.balanced (by simp +decide [braceless_append, hname, hargs])
  | create className name arguments node =>
    cases h
    exact (braceless_createText (hnames _ List.mem_cons_self)
      (hnames _ (List.mem_cons_of_mem _ List.mem_cons_self)) hexprs).balanced
  | _ => cases h

/-! ## Texts of headers -/

/-- An initialiser brings no braces. -/
theorem braceless_initText {init : String} (h : Braceless init) (declares : Bool) :
    Braceless (site.initText init declares) := by
  unfold initText
  split
  next => exact braceless_expr h
  next i hinit =>
    -- the type may be written as it was declared, and then it comes from the initialiser as well
    obtain ⟨hname, hvalue, hdeclared⟩ := LoopInit.subset_of_parse? hinit
    have hsub : ∀ {t : String}, t.toList ⊆ init.toList → Braceless t := fun hsub =>
      h.of_forall fun c hc => Or.inl (hsub hc)
    have hassignment : Braceless (i.name ++ " = " ++ site.expr i.value) := by
      simp +decide [braceless_append, hsub hname, braceless_expr (hsub hvalue)]
    simp only
    split
    next => exact hassignment
    next =>
      rw [braceless_append, braceless_append]
      refine ⟨⟨?_, by decide⟩, hassignment⟩
      split
      next => exact braceless_typeName _ _
      next name hname =>
        split
        next => exact braceless_typeName _ _
        next =>
          split
          next => exact braceless_typeName _ _
          next => exact hsub (hdeclared name hname)

/-- A loop header brings no braces. -/
theorem braceless_loopHeader {init cond step : String} (hinit : Braceless init)
    (hcond : Braceless cond) (hstep : Braceless step) (declares : Bool) :
    Braceless (site.loopHeader init cond step declares) := by
  simp +decide [loopHeader, braceless_append, braceless_initText hinit, braceless_expr hcond,
    braceless_expr hstep]

end Site

theorem braceless_modified {modifiers text : String} (hmodifiers : Braceless modifiers)
    (h : Braceless text) : Braceless (modified modifiers text) := by
  unfold modified
  split
  next => exact h
  next => simp +decide [braceless_append, hmodifiers, h]

/-- A signature has no braces if the names in it have none. -/
theorem braceless_signature {site : Site} {f : FunctionDef} (h : IsBraceless (.function f)) :
    Braceless (signature site f) := by
  obtain ⟨hname, hparams⟩ := List.forall_mem_cons.mp h.names
  rw [List.forall_mem_map] at hparams
  have hlist : Braceless (paramList site f.params) := by
    refine braceless_commaList (List.forall_mem_map.mpr fun q hq => ?_)
    simp +decide [braceless_append, Site.braceless_typeName, hparams q hq]
  simp +decide [signature, braceless_append, hname, hlist]

/-- A field has no braces if its name and its value have none. -/
theorem braceless_fieldLine {site : Site} {modifiers : String} {d : Declaration}
    (hmodifiers : Braceless modifiers) (h : IsBraceless (.statement (.declare d))) :
    Braceless (fieldLine site modifiers d).text := by
  have hname := h.names d.name List.mem_cons_self
  have hvalue : Braceless (site.expr d.value.shown) :=
    Site.braceless_expr (h.expressions _ List.mem_cons_self)
  refine braceless_modified hmodifiers ?_
  simp +decide [braceless_append, Site.braceless_typeName, hname, hvalue]

theorem braceless_fieldParams {site : Site} {c : ClassDef}
    (h : ∀ d ∈ c.fields, IsBraceless (.statement (.declare d))) :
    Braceless (fieldParams site c) := by
  refine braceless_commaList (List.forall_mem_map.mpr fun d hd => ?_)
  have hname := (h d hd).names d.name List.mem_cons_self
  simp +decide [braceless_append, Site.braceless_typeName, hname]

end Braced

end Blockflow
