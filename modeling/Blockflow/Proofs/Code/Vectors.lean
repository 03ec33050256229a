import Blockflow.Proofs.Code.CppLines
import Mathlib.Data.List.Infix

/-!
# Vectors in C++

The declaration of an array in C++ starts with `std::vector<`. A line that does not declare an array
starts in another way, unless it is the head of a loop whose initialiser declares a vector
(`Braced.LineText.startsPlainly`): the other lines start with a keyword, or with a name that goes on
in another way. Inside of a line a vector is mentioned only by a text of the user
(`Braced.LineText.not_mentionsVector`), as no mention goes on across the signs that lines are put
together with.
-/

namespace Blockflow.Braced

open Expression

/-! ## How lines start -/

/-- The text differs from the start before one of the two ends. -/
def StartsOtherwise (start text : String) : Prop :=
  ¬ text.toList <+: start.toList ∧ ¬ start.toList <+: text.toList

instance (start text : String) : Decidable (StartsOtherwise start text) :=
  inferInstanceAs (Decidable (_ ∧ _))

theorem StartsOtherwise.append {start text : String} (h : StartsOtherwise start text)
    (more : String) : StartsOtherwise start (text ++ more) := by
  have hfront : text.toList <+: (text ++ more).toList := by
    rw [String.toList_append]
    exact List.prefix_append _ _
  refine ⟨fun htext => h.1 (hfront.trans htext), fun hstart => ?_⟩
  rcases List.prefix_or_prefix_of_prefix hfront hstart with htext | hstart
  · exact h.1 htext
  · exact h.2 hstart

/-- May the character stand in a name with dots, or be let pass at its end? -/
def isWordChar (c : Char) : Bool := c = '\n' || c = '.' || Text.isNameChar c

/-- Two texts differ that go on in different ways after their names. -/
theorem not_prefix_of_words {rest sep : List Char} {r s : Char} (hr : isWordChar r = false)
    (hs : isWordChar s = false) (h : ¬ s :: sep <+: r :: rest ∧ ¬ r :: rest <+: s :: sep) :
    ∀ {first name : List Char}, first.all isWordChar = true → name.all isWordChar = true →
      ¬ name ++ s :: sep <+: first ++ r :: rest ∧ ¬ first ++ r :: rest <+: name ++ s :: sep
  | [], [], _, _ => h
  | [], c :: name, _, hname => by
    have hc : c ≠ r := by
      rintro rfl
      simp [hr] at hname
    simp [List.cons_prefix_cons, hc, hc.symm]
  | c :: first, [], hfirst, _ => by
    have hc : c ≠ s := by
      rintro rfl
      simp [hs] at hfirst
    simp [List.cons_prefix_cons, hc, hc.symm]
  | c :: first, d :: name, hfirst, hname => by
    rw [List.all_cons, Bool.and_eq_true] at hfirst hname
    have hmore := not_prefix_of_words hr hs h hfirst.2 hname.2
    rw [List.cons_append, List.cons_append, List.cons_prefix_cons, List.cons_prefix_cons]
    exact ⟨fun heq => hmore.1 heq.2, fun heq => hmore.2 heq.2⟩

/-- A name has only word characters, also if a line break was let pass at its end. -/
theorem all_isWordChar {name : String} (h : Text.passesLine Text.isDottedName name.toList = true) :
    name.toList.all isWordChar = true := by
  refine List.all_eq_true.mpr fun c hc => ?_
  rcases Text.isNameChar_of_passesLine h hc with rfl | rfl | hchar
  · rfl
  · rfl
  · rw [isWordChar, hchar, Bool.or_true]

/-- The line declares no vector: neither as a statement nor in the head of a loop. -/
structure StartsPlainly (text : String) : Prop where
  statement : StartsOtherwise "std::vector<" text
  loop : StartsOtherwise "for (" text

instance (text : String) : Decidable (StartsPlainly text) :=
  decidable_of_iff (StartsOtherwise "std::vector<" text ∧ StartsOtherwise "for (" text)
    ⟨fun h => ⟨h.1, h.2⟩, fun h => ⟨h.1, h.2⟩⟩

theorem StartsPlainly.append {text : String} (h : StartsPlainly text) (more : String) :
    StartsPlainly (text ++ more) :=
  ⟨h.statement.append more, h.loop.append more⟩

/-- A line that starts with a name and goes on in another way than with colons or a bracket after a
blank. -/
theorem startsPlainly_name {name sep : String} {s : Char} {more : List Char}
    (h : Text.passesLine Text.isDottedName name.toList = true) (hsep : sep.toList = s :: more)
    (hs : isWordChar s = false) (hvector : StartsOtherwise "::vector<" sep)
    (hloop : StartsOtherwise " (" sep) : StartsPlainly (name ++ sep) := by
  rw [StartsOtherwise, hsep] at hvector hloop
  have hname := all_isWordChar h
  have hstd : "std".toList.all isWordChar = true := by decide
  have hfor : "for".toList.all isWordChar = true := by decide
  constructor
  · rw [StartsOtherwise, String.toList_append, hsep]
    exact not_prefix_of_words (by decide) hs hvector hstd hname
  · rw [StartsOtherwise, String.toList_append, hsep]
    exact not_prefix_of_words (by decide) hs hloop hfor hname

/-- Two names with a blank between them. -/
theorem startsPlainly_names {first second : String}
    (hfirst : Text.passesLine Text.isDottedName first.toList = true)
    (hsecond : Text.passesLine Text.isDottedName second.toList = true) :
    StartsPlainly (first ++ " " ++ second) := by
  have hsep : (" " ++ second).toList = ' ' :: second.toList := by simp
  have hblank : StartsOtherwise "::vector<" " " := by decide
  rw [String.append_assoc]
  refine startsPlainly_name hfirst hsep rfl (hblank.append second) ?_
  rw [StartsOtherwise, hsep]
  cases hchars : second.toList with
  | nil =>
    rw [hchars] at hsecond
    cases hsecond
  | cons c rest =>
    have hc : c ≠ '(' := by
      rintro rfl
      have hword := all_isWordChar hsecond
      rw [hchars] at hword
      cases hword
    simp [List.cons_prefix_cons, hc, hc.symm]

/-- No line that starts with a type declares a vector, since no type of a variable is one. -/
theorem startsPlainly_typeName (place : TypePlace) (type : ValueType) :
    StartsPlainly (typeName .cpp place type ++ " ") := by
  cases place <;> cases type <;> decide

/-- The lines that open a block start as plainly as its header. -/
theorem startsPlainly_opening {header : String} (h : StartsPlainly header) :
    ∀ text ∈ (opening .cpp header).map Line.text, StartsPlainly text :=
  List.forall_mem_singleton.mpr (h.append _)

theorem startsPlainly_reopening (header : String) :
    ∀ text ∈ (reopening .cpp header).map Line.text, StartsPlainly text := by
  have hbrace : StartsPlainly "\x7d " := by decide
  exact List.forall_mem_singleton.mpr ((hbrace.append _).append _)

/-- Among the lines around the blocks of a statement, only the head of a loop may declare a
vector. -/
theorem startsPlainly_frames {s : Statement} {text : String} (h : text ∈ frames cpp s) :
    StartsPlainly text ∨ ∃ init cond step declares body node,
      s = .forLoop init cond step declares body node ∧
        text = cpp.loopHeader init cond.shown step.shown declares ++ " \x7b" := by
  have hif : StartsPlainly "if (" := by decide
  have hclose : StartsPlainly "\x7d" := by decide
  revert text
  cases s with
  | branch cond yes no node =>
    refine fun {text} h => Or.inl ?_
    revert text
    simp only [frames, List.forall_mem_append, List.forall_mem_singleton]
    exact ⟨⟨⟨startsPlainly_opening ((hif.append _).append _), startsPlainly_reopening _⟩,
      startsPlainly_reopening _⟩, hclose⟩
  | switch subject type cases default node =>
    refine fun {text} h => Or.inl ?_
    revert text
    rw [frames]
    split
    next =>
      simp only [List.forall_mem_append, List.forall_mem_flatMap, List.forall_mem_singleton]
      exact ⟨⟨⟨fun _ _ => startsPlainly_opening ((hif.append _).append _),
        fun _ _ => startsPlainly_reopening _⟩, startsPlainly_reopening _⟩, hclose⟩
    next =>
      have hswitch : StartsPlainly "switch (" := by decide
      have hcase : StartsPlainly "case " := by decide
      have hlast : ∀ text ∈ [cpp.labelText none, "break;", "\x7d"], StartsPlainly text := by
        decide
      simp only [List.forall_mem_append]
      exact ⟨⟨startsPlainly_opening ((hswitch.append _).append _),
        List.forall_mem_map.mpr fun _ _ => (hcase.append _).append _⟩, hlast⟩
  | forLoop init cond step declares body node =>
    intro text h
    rcases List.mem_append.mp h with h | h
    · refine Or.inr ⟨init, cond, step, declares, body, node, rfl, ?_⟩
      exact List.mem_singleton.mp h
    · exact Or.inl (List.mem_singleton.mp h ▸ hclose)
  | whileLoop cond body node =>
    refine fun {text} h => Or.inl ?_
    revert text
    have hwhile : StartsPlainly "while (" := by decide
    simp only [frames, List.forall_mem_append, List.forall_mem_singleton]
    exact ⟨startsPlainly_opening ((hwhile.append _).append _), hclose⟩
  | _ => exact fun h => absurd h List.not_mem_nil

/-- The text of a statement of one line declares a vector only if the statement declares an
array. -/
theorem startsPlainly_leaf {s : Statement} {text : String}
    (hnames : ∀ name ∈ s.names, Text.passesLine Text.isDottedName name.toList = true)
    (harray : ∀ name elements type node, s ≠ .array name elements type node)
    (h : cpp.leaf? s = some text) : StartsPlainly text := by
  cases s with
  | declare d =>
    cases h
    exact ((((startsPlainly_typeName .localVar d.type).append _).append _).append _).append _
  | assign name value node =>
    cases h
    have hname := hnames _ List.mem_cons_self
    exact ((startsPlainly_name hname rfl rfl (by decide) (by decide)).append _).append _
  | array name elements type node => exact absurd rfl (harray name elements type node)
  | print value node =>
    cases h
    have hcout : StartsPlainly "std::cout << " := by decide
    exact (hcout.append _).append _
  | call name args node =>
    cases h
    have hname := hnames _ List.mem_cons_self
    exact ((startsPlainly_name hname rfl rfl (by decide) (by decide)).append _).append _
  | create className name args node =>
    cases h
    obtain ⟨hclass, hnames⟩ := List.forall_mem_cons.mp hnames
    have hstart := startsPlainly_names hclass (hnames _ List.mem_cons_self)
    unfold Site.createText
    simp only
    split
    next => exact hstart.append _
    next => exact ((hstart.append _).append _).append _
  | _ => cases h

section

variable {p : Program} {text : String}
  (hnames : ∀ q ∈ p.walk, ∀ name ∈ q.names, Text.passesLine Text.isDottedName name.toList = true)
include hnames

/-- The name of a class passed the test for names. -/
theorem passesLine_class {c : ClassDef} (hc : c ∈ p.classes) :
    Text.passesLine Text.isDottedName c.name.toList = true :=
  hnames (.classDef c) (Program.walk_class_subset hc List.mem_cons_self) _ List.mem_cons_self

/-- The names in a statement passed the test for names. -/
theorem passesLine_statement {params : List String} {body : Block} {s : Statement}
    (hbody : p.HasBody params body) (hs : s ∈ Block.walk body) :
    ∀ name ∈ s.names, Text.passesLine Text.isDottedName name.toList = true :=
  hnames (.statement s) (Program.mem_statements.mp (hbody.mem_statements hs))

/-- A constructor starts with the name of its class. -/
theorem startsPlainly_constructor {c : ClassDef} {l : Line} (hc : c ∈ p.classes)
    (hl : l ∈ constructors cpp "" c) : StartsPlainly l.text := by
  have hname := passesLine_class hnames hc
  have hbracket : StartsPlainly (c.name ++ "(") :=
    startsPlainly_name hname rfl rfl (by decide) (by decide)
  rcases List.mem_cons.mp hl with rfl | hl
  · exact startsPlainly_name hname rfl rfl (by decide) (by decide)
  · cases List.mem_singleton.mp hl
    exact (((hbracket.append _).append _).append _).append _

/-- **A line declares a vector only if it declares an array or is the head of a loop.** -/
theorem LineText.startsPlainly (h : LineText p text) :
    (¬ "std::vector<".toList <+: text.toList ∧ ¬ "for (".toList <+: text.toList) ∨
    (∃ name elements type node, .array name elements type node ∈ p.statements ∧
      text = cpp.arrayText name.shown elements type) ∨
    ∃ init cond step declares body node, .forLoop init cond step declares body node ∈ p.statements ∧
      text = cpp.loopHeader init cond.shown step.shown declares ++ " \x7b" := by
  have hplain : ∀ {text}, StartsPlainly text →
      ¬ "std::vector<".toList <+: text.toList ∧ ¬ "for (".toList <+: text.toList := fun h =>
    ⟨h.statement.2, h.loop.2⟩
  cases h with
  | fixed hfixed =>
    have hall : ∀ text ∈ ["", "public:", "\x7d;", "\x7d", "int main() \x7b", "return 0;"],
        ¬ "std::vector<".toList <+: text.toList ∧ ¬ "for (".toList <+: text.toList := by decide
    exact Or.inl (hall _ hfixed)
  | included hname =>
    have hinclude : StartsPlainly "#include <" := by decide
    exact Or.inl (hplain ((hinclude.append _).append _))
  | signature hf hending =>
    have hvoid : StartsPlainly "void " := by decide
    exact Or.inl (hplain (((((hvoid.append _).append _).append _).append _).append _))
  | opening hc =>
    have hclass : StartsPlainly "class " := by decide
    exact Or.inl (hplain ((hclass.append _).append _))
  | @field c d hc hd =>
    have htype := startsPlainly_typeName .field d.type
    exact Or.inl (hplain ((((htype.append _).append _).append _).append _))
  | constructor hc hl => exact Or.inl (hplain (startsPlainly_constructor hnames hc hl))
  | @leaf params body s text hbody hs htext =>
    by_cases harray : ∃ name elements type node, s = .array name elements type node
    · obtain ⟨name, elements, type, node, rfl⟩ := harray
      exact Or.inr (Or.inl ⟨name, elements, type, node, hbody.mem_statements hs,
        (Option.some.inj htext).symm⟩)
    · refine Or.inl (hplain (startsPlainly_leaf (passesLine_statement hnames hbody hs) ?_ htext))
      exact fun name elements type node heq => harray ⟨name, elements, type, node, heq⟩
  | frame hbody hs hframe =>
    rcases startsPlainly_frames hframe with h | ⟨init, cond, step, declares, body, node, rfl, h⟩
    · exact Or.inl (hplain h)
    · exact Or.inr (Or.inr ⟨init, cond, step, declares, body, node, hbody.mem_statements hs, h⟩)

end

/-- The declaration of an array starts with the type. -/
theorem prefix_arrayText (name : String) (elements : List String) (type : ValueType) :
    "std::vector<".toList <+: (cpp.arrayText name elements type).toList := by
  simp only [Site.arrayText, String.toList_append, List.append_assoc]
  exact List.prefix_append _ _

theorem prefix_append_cons_iff {needle front rest : List Char} {c : Char} (hc : c ∉ needle) :
    needle <+: front ++ c :: rest ↔ needle <+: front := by
  refine ⟨fun h => ?_, fun h => h.trans (List.prefix_append _ _)⟩
  have hfront : front ++ [c] <+: front ++ c :: rest := ⟨rest, by simp⟩
  rcases List.prefix_or_prefix_of_prefix h hfront with hneedle | hmore
  · rcases List.prefix_concat_iff.mp hneedle with rfl | hneedle
    · exact absurd (List.mem_append_right _ List.mem_cons_self) hc
    · exact hneedle
  · exact absurd (hmore.subset (List.mem_append_right _ List.mem_cons_self)) hc

/-- The head of a loop declares a vector if its initialiser starts with one. -/
theorem prefix_loopHeader_iff {init cond step : String} {declares : Bool} :
    "for (std::vector<".toList <+: (cpp.loopHeader init cond step declares ++ " \x7b").toList ↔
      "std::vector<".toList <+: (cpp.initText init declares).toList := by
  have hheader : (cpp.loopHeader init cond step declares ++ " \x7b").toList =
      "for (".toList ++ ((cpp.initText init declares).toList ++ ';' ::
        (" " ++ cpp.expr cond ++ "; " ++ cpp.expr step ++ ")" ++ " \x7b").toList) := by
    simp [Site.loopHeader]
  have hsplit : "for (std::vector<".toList = "for (".toList ++ "std::vector<".toList := by decide
  rw [hheader, hsplit, List.prefix_append_right_inj, prefix_append_cons_iff (by decide)]

/-- A loop header does not start with a type of vectors. -/
theorem not_prefix_loopHeader (init cond step : String) (declares : Bool) :
    ¬ "std::vector<".toList <+:
      (cpp.loopHeader init cond step declares ++ " \x7b").toList := by
  have hfor : StartsOtherwise "std::vector<" "for (" := by decide
  exact ((((((hfor.append _).append _).append _).append _).append _).append _ |>.append _).2

/-- The line declares a vector, as a statement or in the head of a loop. -/
def DeclaresVector (text : String) : Prop :=
  "std::vector<".toList <+: text.toList ∨ "for (std::vector<".toList <+: text.toList

instance (text : String) : Decidable (DeclaresVector text) := inferInstanceAs (Decidable (_ ∨ _))

/-! ## Texts that mention vectors -/

/-- The text mentions a type of vectors. -/
def MentionsVector (text : String) : Prop := "std::vector<".toList <:+: text.toList

/-- A text mentions a vector if one of its tails starts with the type. -/
theorem mentionsVector_iff {text : String} : MentionsVector text ↔
    text.toList.tails.any ("std::vector<".toList.isPrefixOf ·) = true := by
  simp only [MentionsVector, List.infix_iff_prefix_suffix, List.any_eq_true, List.mem_tails,
    List.isPrefixOf_iff_prefix, and_comm]

instance (text : String) : Decidable (MentionsVector text) :=
  decidable_of_iff _ mentionsVector_iff.symm

/-- Does the mention of a type not go on across this end of the text? -/
def endsApart (text : String) : Bool :=
  text.toList.getLast?.any fun c => decide (c ∉ "std::vector<".toList)

def startsApart (text : String) : Bool :=
  text.toList.head?.any fun c => decide (c ∉ "std::vector<".toList)

section

variable {text more sep : String}

theorem endsApart_append (h : endsApart sep = true) : endsApart (text ++ sep) = true := by
  rw [endsApart, String.toList_append, List.getLast?_append]
  cases hlast : sep.toList.getLast? with
  | none => simp [endsApart, hlast] at h
  | some c => simpa [endsApart, hlast] using h

/-- The mention of a type does not go on across the place where two texts meet. -/
theorem mentionsVector_append (h : endsApart text = true ∨ startsApart more = true) :
    MentionsVector (text ++ more) ↔ MentionsVector text ∨ MentionsVector more := by
  rw [MentionsVector, String.toList_append, List.infix_append_iff]
  refine ⟨?_, fun h => h.imp_right Or.inl⟩
  rintro (htext | hmore | ⟨front, rest, heq, hfront, hrest⟩)
  · exact Or.inl htext
  · exact Or.inr hmore
  -- one of the two parts of the mention is empty, or has a character that is not in it
  rcases h with h | h
  · obtain ⟨c, hlast, hc⟩ := (Option.any_eq_true _ _).mp h
    obtain ⟨before, hbefore⟩ := List.getLast?_eq_some_iff.mp hlast
    rw [hbefore] at hfront
    rcases List.suffix_concat_iff.mp hfront with rfl | ⟨t, rfl, -⟩
    · rw [List.nil_append] at heq
      exact Or.inr (heq ▸ hrest.isInfix : "std::vector<".toList <:+: more.toList)
    · refine absurd ?_ (of_decide_eq_true hc)
      rw [heq]
      simp
  · obtain ⟨c, hhead, hc⟩ := (Option.any_eq_true _ _).mp h
    obtain ⟨after, hafter⟩ := List.head?_eq_some_iff.mp hhead
    rw [hafter] at hrest
    rcases List.prefix_cons_iff.mp hrest with rfl | ⟨t, rfl, -⟩
    · rw [List.append_nil] at heq
      exact Or.inl (heq ▸ hfront.isInfix : "std::vector<".toList <:+: text.toList)
    · refine absurd ?_ (of_decide_eq_true hc)
      rw [heq]
      simp

/-- A text that ends apart from what follows adds no mention to it. -/
theorem not_mentionsVector_prepend (h : endsApart text = true) (htext : ¬ MentionsVector text)
    (hmore : ¬ MentionsVector more) : ¬ MentionsVector (text ++ more) := by
  rw [mentionsVector_append (Or.inl h)]
  exact not_or.mpr ⟨htext, hmore⟩

/-- A text that starts apart from what stands before it adds no mention to it. -/
theorem not_mentionsVector_concat (htext : ¬ MentionsVector text) (h : startsApart more = true)
    (hmore : ¬ MentionsVector more) : ¬ MentionsVector (text ++ more) := by
  rw [mentionsVector_append (Or.inr h)]
  exact not_or.mpr ⟨htext, hmore⟩

/-- Two texts with a separator between them. -/
theorem not_mentionsVector_join (htext : ¬ MentionsVector text) (hmore : ¬ MentionsVector more)
    (hsep : startsApart sep = true ∧ endsApart sep = true ∧ ¬ MentionsVector sep) :
    ¬ MentionsVector (text ++ sep ++ more) :=
  not_mentionsVector_prepend (endsApart_append hsep.2.1)
    (not_mentionsVector_concat htext hsep.1 hsep.2.2) hmore

/-- Two texts with a separator between them and an end behind them. -/
theorem not_mentionsVector_ended {last : String} (htext : ¬ MentionsVector text)
    (hmore : ¬ MentionsVector more)
    (hsep : startsApart sep = true ∧ endsApart sep = true ∧ ¬ MentionsVector sep)
    (hlast : startsApart last = true ∧ ¬ MentionsVector last) :
    ¬ MentionsVector (text ++ sep ++ more ++ last) :=
  not_mentionsVector_concat (not_mentionsVector_join htext hmore hsep) hlast.1 hlast.2

/-- Texts that mention no vector do not mention one together, if the separator keeps them apart. -/
theorem not_mentionsVector_intercalate
    (hsep : startsApart sep = true ∧ endsApart sep = true ∧ ¬ MentionsVector sep) :
    ∀ {texts : List String}, (∀ text ∈ texts, ¬ MentionsVector text) →
      ¬ MentionsVector (sep.intercalate texts)
  | [], _ => (by decide : ¬ MentionsVector "")
  | [text], h => by
    rw [String.intercalate_singleton]
    exact h text List.mem_cons_self
  | text :: next :: rest, h => by
    obtain ⟨htext, hrest⟩ := List.forall_mem_cons.mp h
    rw [String.intercalate_cons_cons]
    exact not_mentionsVector_join htext (not_mentionsVector_intercalate hsep hrest) hsep

theorem not_mentionsVector_commaList {texts : List String}
    (h : ∀ text ∈ texts, ¬ MentionsVector text) : ¬ MentionsVector (commaList texts) :=
  not_mentionsVector_intercalate (by decide) h

/-- A name does not mention a vector. -/
theorem not_mentionsVector_name {name : String}
    (h : Text.passesLine Text.isDottedName name.toList = true) : ¬ MentionsVector name := by
  intro hmention
  have hcolon : ':' ∈ name.toList := hmention.subset (by decide)
  exact absurd (Text.isNameChar_of_passesLine h hcolon) (by decide)

/-- No type of a variable is a vector. -/
theorem not_mentionsVector_typeName (place : TypePlace) (type : ValueType) :
    ¬ MentionsVector (typeName .cpp place type) := by
  cases place <;> cases type <;> decide

/-- A variable with its type. -/
theorem not_mentionsVector_typed {name : String} (place : TypePlace) (type : ValueType)
    (h : Text.passesLine Text.isDottedName name.toList = true) :
    ¬ MentionsVector (typeName .cpp place type ++ " " ++ name) :=
  not_mentionsVector_join (not_mentionsVector_typeName place type) (not_mentionsVector_name h)
    (by decide)

end

/-! ## Texts of the user -/

/-- The texts of the user in a statement, as they are written in C++. -/
def writtenTexts : Statement → List String
  | .declare d => [cpp.expr d.value.shown]
  | .assign _ value _ => [cpp.expr value.shown]
  | .array _ elements _ _ => elements.map cpp.expr
  | .print value _ => ((splitConcat? value.shown).getD [value.shown]).map cpp.expr
  | .call _ arguments _ | .create _ _ arguments _ => arguments.map cpp.expr
  | .branch cond _ _ _ | .whileLoop cond _ _ => [cpp.expr cond.shown]
  | .switch subject _ cases _ _ => cpp.expr subject :: cases.map fun case => cpp.expr case.1
  | .forLoop init cond step declares _ _ =>
    [cpp.initText init declares, cpp.expr cond.shown, cpp.expr step.shown]
  | .foreign _ => []

/-- A statement of one line mentions a vector only if it is an array or a text of the user does. -/
theorem not_mentionsVector_leaf {s : Statement} {text : String}
    (hnames : ∀ name ∈ s.names, Text.passesLine Text.isDottedName name.toList = true)
    (htexts : ∀ text ∈ writtenTexts s, ¬ MentionsVector text)
    (harray : ∀ name elements type node, s ≠ .array name elements type node)
    (h : cpp.leaf? s = some text) : ¬ MentionsVector text := by
  cases s with
  | declare d =>
    cases h
    have hvalue := htexts _ List.mem_cons_self
    have hvar := not_mentionsVector_typed .localVar d.type (hnames _ List.mem_cons_self)
    exact not_mentionsVector_ended hvar hvalue (by decide) (by decide)
  | assign name value node =>
    cases h
    have hname := not_mentionsVector_name (hnames _ List.mem_cons_self)
    have hvalue := htexts _ List.mem_cons_self
    exact not_mentionsVector_ended hname hvalue (by decide) (by decide)
  | array name elements type node => exact absurd rfl (harray name elements type node)
  | print value node =>
    cases h
    have hparts : ¬ MentionsVector (" << ".intercalate _) :=
      not_mentionsVector_intercalate (by decide) htexts
    exact not_mentionsVector_concat (not_mentionsVector_prepend rfl (by decide) hparts) rfl
      (by decide)
  | call name args node =>
    cases h
    have hname := not_mentionsVector_name (hnames _ List.mem_cons_self)
    have hargs := not_mentionsVector_commaList htexts
    exact not_mentionsVector_ended hname hargs (by decide) (by decide)
  | create className name args node =>
    cases h
    obtain ⟨hclass, hnames⟩ := List.forall_mem_cons.mp hnames
    have hname := not_mentionsVector_name (hnames _ List.mem_cons_self)
    have hstart := not_mentionsVector_join (not_mentionsVector_name hclass) hname
      (by decide : startsApart " " = true ∧ endsApart " " = true ∧ ¬ MentionsVector " ")
    have hargs := not_mentionsVector_commaList htexts
    unfold Site.createText
    simp only
    split
    next => exact not_mentionsVector_concat hstart rfl (by decide)
    next => exact not_mentionsVector_ended hstart hargs (by decide) (by decide)
  | _ => cases h

theorem not_mentionsVector_opening {header : String} (h : ¬ MentionsVector header) :
    ∀ text ∈ (opening .cpp header).map Line.text, ¬ MentionsVector text :=
  List.forall_mem_singleton.mpr (not_mentionsVector_concat h rfl (by decide))

theorem not_mentionsVector_reopening {header : String} (h : ¬ MentionsVector header) :
    ∀ text ∈ (reopening .cpp header).map Line.text, ¬ MentionsVector text :=
  List.forall_mem_singleton.mpr
    (not_mentionsVector_concat (not_mentionsVector_prepend rfl (by decide) h) rfl (by decide))

/-- A text between brackets. -/
theorem not_mentionsVector_bracketed {keyword text : String} (hkeyword : endsApart keyword = true)
    (hmention : ¬ MentionsVector keyword) (h : ¬ MentionsVector text) :
    ¬ MentionsVector (keyword ++ text ++ ")") :=
  not_mentionsVector_concat (not_mentionsVector_prepend hkeyword hmention h) rfl (by decide)

/-- The label of a case goes on with a colon, but no mention ends with one. -/
theorem not_mentionsVector_case {text : String} (h : ¬ MentionsVector text) :
    ¬ MentionsVector ("case " ++ text ++ ":") := by
  have hcase : ¬ MentionsVector ("case " ++ text) := not_mentionsVector_prepend rfl (by decide) h
  have hcolon : ":".toList = [':'] := rfl
  rw [MentionsVector, String.toList_append, hcolon, List.infix_concat_iff]
  refine not_or.mpr ⟨?_, hcase⟩
  rintro ⟨front, heq⟩
  have hlast := congrArg List.getLast? heq
  rw [List.getLast?_append, List.getLast?_concat] at hlast
  exact absurd (Option.some.inj hlast) (by decide)

/-- A loop header mentions a vector only if one of its three parts does. -/
theorem not_mentionsVector_loopHeader {init cond step : String} {declares : Bool}
    (hinit : ¬ MentionsVector (cpp.initText init declares))
    (hcond : ¬ MentionsVector (cpp.expr cond))
    (hstep : ¬ MentionsVector (cpp.expr step)) :
    ¬ MentionsVector (cpp.loopHeader init cond step declares) := by
  have hstart : ¬ MentionsVector ("for (" ++ _) := not_mentionsVector_prepend rfl (by decide) hinit
  have hmiddle : ¬ MentionsVector (_ ++ "; " ++ _) :=
    not_mentionsVector_join hstart hcond (by decide)
  exact not_mentionsVector_ended hmiddle hstep (by decide) (by decide)

/-- The lines around the blocks of a statement mention a vector only if a text of the user does. -/
theorem not_mentionsVector_frames {s : Statement}
    (h : ∀ text ∈ writtenTexts s, ¬ MentionsVector text) :
    ∀ text ∈ frames cpp s, ¬ MentionsVector text := by
  have hclose : ¬ MentionsVector "\x7d" := by decide
  have helse : ¬ MentionsVector "else" := by decide
  cases s with
  | branch cond yes no node =>
    have hcond := h _ List.mem_cons_self
    simp only [frames, List.forall_mem_append, List.forall_mem_singleton]
    refine ⟨⟨⟨?_, ?_⟩, not_mentionsVector_reopening helse⟩, hclose⟩
    · exact not_mentionsVector_opening (not_mentionsVector_bracketed rfl (by decide) hcond)
    · exact not_mentionsVector_reopening (not_mentionsVector_bracketed rfl (by decide) hcond)
  | switch subject type cases default node =>
    obtain ⟨hsubject, hvalues⟩ := List.forall_mem_cons.mp h
    rw [frames]
    split
    next =>
      have htests : ∀ test ∈ cases.map fun case => cpp.testText (.equals subject case.1),
          ¬ MentionsVector test := List.forall_mem_map.mpr fun case hcase =>
        not_mentionsVector_join hsubject (hvalues _ (List.mem_map.mpr ⟨case, hcase, rfl⟩))
          (by decide)
      simp only [List.forall_mem_append, List.forall_mem_flatMap, List.forall_mem_singleton]
      refine ⟨⟨⟨fun test htest => ?_, fun test htest => ?_⟩,
        not_mentionsVector_reopening helse⟩, hclose⟩
      · exact not_mentionsVector_opening
          (not_mentionsVector_bracketed rfl (by decide) (htests test htest))
      · exact not_mentionsVector_reopening
          (not_mentionsVector_bracketed rfl (by decide) (htests test htest))
    next =>
      have hlast : ∀ text ∈ [cpp.labelText none, "break;", "\x7d"], ¬ MentionsVector text := by
        decide
      simp only [List.forall_mem_append]
      refine ⟨⟨not_mentionsVector_opening ?_, List.forall_mem_map.mpr fun case hcase => ?_⟩, hlast⟩
      · exact not_mentionsVector_bracketed rfl (by decide) hsubject
      · exact not_mentionsVector_case (hvalues _ (List.mem_map.mpr ⟨case, hcase, rfl⟩))
  | forLoop init cond step declares body node =>
    simp only [writtenTexts, List.forall_mem_cons] at h
    obtain ⟨hinit, hcond, hstep, -⟩ := h
    simp only [frames, List.forall_mem_append, List.forall_mem_singleton]
    exact ⟨not_mentionsVector_opening (not_mentionsVector_loopHeader hinit hcond hstep), hclose⟩
  | whileLoop cond body node =>
    have hcond := h _ List.mem_cons_self
    simp only [frames, List.forall_mem_append, List.forall_mem_singleton]
    exact ⟨not_mentionsVector_opening (not_mentionsVector_bracketed rfl (by decide) hcond), hclose⟩
  | _ => exact List.forall_mem_nil _

section

variable {p : Program} {text : String}
  (hnames : ∀ q ∈ p.walk, ∀ name ∈ q.names, Text.passesLine Text.isDottedName name.toList = true)
include hnames

/-- A signature does not mention a vector. -/
theorem not_mentionsVector_signature {f : FunctionDef}
    (hf : f ∈ p.functions ∨ ∃ c ∈ p.classes, f ∈ c.methods) :
    ¬ MentionsVector (signature cpp f) := by
  have hmem : Part.function f ∈ p.walk := Program.walk_function_subset hf List.mem_cons_self
  obtain ⟨hname, hparams⟩ := List.forall_mem_cons.mp (hnames _ hmem)
  have hparams : ¬ MentionsVector (paramList cpp f.params) :=
    not_mentionsVector_commaList (List.forall_mem_map.mpr fun q hq =>
      not_mentionsVector_typed .param q.type (hparams _ (List.mem_map_of_mem hq)))
  have hstart : ¬ MentionsVector ("void " ++ f.name) :=
    not_mentionsVector_prepend rfl (by decide) (not_mentionsVector_name hname)
  exact not_mentionsVector_ended hstart hparams (by decide) (by decide)

theorem passesLine_field {c : ClassDef} (hc : c ∈ p.classes) {d : Declaration} (hd : d ∈ c.fields) :
    Text.passesLine Text.isDottedName d.name.toList = true :=
  hnames _ (Program.walk_class_subset hc (ClassDef.declare_mem_walk hd)) _ List.mem_cons_self

/-- A constructor does not mention a vector. -/
theorem not_mentionsVector_constructor {c : ClassDef} {l : Line} (hc : c ∈ p.classes)
    (hl : l ∈ constructors cpp "" c) : ¬ MentionsVector l.text := by
  have hname := not_mentionsVector_name (passesLine_class hnames hc)
  have hfield : ∀ d ∈ c.fields, Text.passesLine Text.isDottedName d.name.toList = true :=
    fun d hd => passesLine_field hnames hc hd
  rcases List.mem_cons.mp hl with rfl | hl
  · exact not_mentionsVector_concat hname rfl (by decide)
  · cases List.mem_singleton.mp hl
    have hparams : ¬ MentionsVector (fieldParams cpp c) :=
      not_mentionsVector_commaList (List.forall_mem_map.mpr fun d hd =>
        not_mentionsVector_typed .field d.type (hfield d hd))
    have hinits : ¬ MentionsVector
        (commaList (c.fields.map fun d => d.name ++ "(" ++ d.name ++ ")")) := by
      refine not_mentionsVector_commaList (List.forall_mem_map.mpr fun d hd => ?_)
      have hd := not_mentionsVector_name (hfield d hd)
      exact not_mentionsVector_ended hd hd (by decide) (by decide)
    have hstart : ¬ MentionsVector (c.name ++ "(" ++ fieldParams cpp c) :=
      not_mentionsVector_join hname hparams (by decide)
    exact not_mentionsVector_ended hstart hinits (by decide) (by decide)

/-- **Vectors are mentioned by the declarations of arrays and by texts of the user**, and nowhere
else. -/
theorem LineText.not_mentionsVector (h : LineText p text)
    (harrays : ∀ name elements type node, .array name elements type node ∉ p.statements)
    (htexts : ∀ s ∈ p.statements, ∀ text ∈ writtenTexts s, ¬ MentionsVector text) :
    ¬ MentionsVector text := by
  cases h with
  | fixed hfixed =>
    have hall : ∀ text ∈ ["", "public:", "\x7d;", "\x7d", "int main() \x7b", "return 0;"],
        ¬ MentionsVector text := by decide
    exact hall _ hfixed
  | included hname =>
    have hall : ∀ name ∈ ["any", "iostream", "string", "vector"],
        ¬ MentionsVector ("#include <" ++ name ++ ">") := by decide
    exact hall _ (includes_subset hname)
  | signature hf hending =>
    have hall : ∀ ending ∈ [";", " \x7b"],
        startsApart ending = true ∧ ¬ MentionsVector ending := by decide
    have hending := hall _ hending
    exact not_mentionsVector_concat (not_mentionsVector_signature hnames hf) hending.1 hending.2
  | opening hc =>
    have hname := not_mentionsVector_name (passesLine_class hnames hc)
    have hstart : ¬ MentionsVector ("class " ++ _) :=
      not_mentionsVector_prepend rfl (by decide) hname
    exact not_mentionsVector_concat hstart rfl (by decide)
  | @field c d hc hd =>
    have hmem : .declare d ∈ p.statements :=
      Program.mem_statements.mpr (Program.walk_class_subset hc (ClassDef.declare_mem_walk hd))
    have hvalue := htexts _ hmem _ List.mem_cons_self
    have hvar := not_mentionsVector_typed .field d.type (passesLine_field hnames hc hd)
    exact not_mentionsVector_ended hvar hvalue (by decide) (by decide)
  | constructor hc hl => exact not_mentionsVector_constructor hnames hc hl
  | @leaf params body s text hbody hs htext =>
    have hmem := hbody.mem_statements hs
    refine not_mentionsVector_leaf (passesLine_statement hnames hbody hs) (htexts s hmem) ?_ htext
    exact fun name elements type node heq => harrays name elements type node (heq ▸ hmem)
  | @frame params body s text hbody hs hframe =>
    exact not_mentionsVector_frames (htexts s (hbody.mem_statements hs)) text hframe

end

end Blockflow.Braced
