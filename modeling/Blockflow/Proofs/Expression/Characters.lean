import Blockflow.Expression.Header
import Blockflow.Expression.Pieces
import Blockflow.Proofs.Expression.Literal

/-!
# The characters of expressions that were worked on

An expression is stripped, cut into pieces, respelled and qualified before it is written. Whatever
is done with it, its characters come from the expression or are among a few that the spellings need
(`mem_spell`), and an expression with something in it does not become blank (`solid_spell`,
`solid_qualify`).
-/

namespace Blockflow

open Text

namespace Text

theorem mem_of_mem_strip {s : List Char} {c : Char} (h : c ∈ strip s) : c ∈ s := by
  have hend := stripEnd_prefix (stripStart s)
  exact (List.dropWhile_sublist _).subset (hend.subset h)

theorem mem_dropWhile_isBlank {s : List Char} {c : Char} (h : c ∈ s) (hc : isBlank c = false) :
    c ∈ s.dropWhile isBlank := by
  rw [← List.takeWhile_append_dropWhile (p := isBlank) (l := s), List.mem_append] at h
  rcases h with h | h
  · have := List.mem_takeWhile_imp h
    rw [hc] at this
    cases this
  · exact h

/-- Stripping takes away blanks only. -/
theorem mem_strip {s : List Char} {c : Char} (h : c ∈ s) (hc : isBlank c = false) :
    c ∈ strip s := by
  have hstart := mem_dropWhile_isBlank h hc
  have hend := mem_dropWhile_isBlank (List.mem_reverse.mpr hstart) hc
  exact List.mem_reverse.mpr hend

/-- A name has only name characters. -/
theorem isNameChar_of_mem {c : Char} : ∀ {s : List Char}, isName s = true → c ∈ s →
    isNameChar c = true
  | [], _, h => absurd h List.not_mem_nil
  | d :: rest, hname, h => by
    rw [isName, Bool.and_eq_true] at hname
    rcases List.mem_cons.mp h with rfl | h
    · have hstart := hname.1
      simp only [isNameStart, isNameChar, Char.isAlphanum, Bool.or_eq_true] at hstart ⊢
      exact hstart.imp_left Or.inl
    · exact List.all_eq_true.mp hname.2 c h

/-- There is something in the text besides blanks. -/
def Solid (s : List Char) : Prop := ∃ c ∈ s, isBlank c = false

/-- A text is solid if it is not blank. -/
theorem solid_iff {s : List Char} : Solid s ↔ allBlank s = false := by
  rw [allBlank, List.all_eq_false]
  simp [Solid]

theorem Solid.mono {s t : List Char} (h : Solid s) (hst : ∀ c ∈ s, isBlank c = false → c ∈ t) :
    Solid t := by
  obtain ⟨c, hc, hblank⟩ := h
  exact ⟨c, hst c hc hblank, hblank⟩

end Text

namespace Token

/-- The characters of a list of tokens are those of the tokens. -/
theorem mem_join {ts : List Token} {c : Char} : c ∈ join ts ↔ ∃ t ∈ ts, c ∈ t.text :=
  List.mem_flatMap

/-- A token has no characters of its own. -/
theorem mem_of_mem_token {s : List Char} {t : Token} {c : Char} (ht : t ∈ tokens s)
    (hc : c ∈ t.text) : c ∈ s := by
  rw [← join_tokens s]
  exact mem_join.mpr ⟨t, ht, hc⟩

/-- Every character of a text is in one of its tokens. -/
theorem exists_token_of_mem {s : List Char} {c : Char} (h : c ∈ s) :
    ∃ t ∈ tokens s, c ∈ t.text := by
  rw [← join_tokens s] at h
  exact mem_join.mp h

/-- A token with something in it is no run of blanks. -/
theorem kind_ne_space {s : List Char} {t : Token} (ht : t ∈ tokens s) (h : Solid t.text) :
    t.kind ≠ .space := by
  intro hkind
  obtain ⟨s', hfirst⟩ := exists_isFirst_of_mem 0 s ht
  have := hfirst.space hkind
  rw [solid_iff.mp h] at this
  cases this

/-- A piece between marks has only tokens that were cut. -/
theorem mem_of_mem_cutAt {mark : List Char} :
    ∀ {ts : List Token} {depth : Int} {piece : List Token},
    piece ∈ cutAt mark depth ts → piece ⊆ ts
  | [], _, piece, h => by
    rw [cutAt, List.mem_singleton] at h
    rw [h]
    exact List.nil_subset _
  | t :: rest, depth, piece, h => by
    rw [cutAt] at h
    split at h
    next =>
      rcases List.mem_cons.mp h with rfl | h
      · exact List.nil_subset _
      · exact List.subset_cons_of_subset _ (mem_of_mem_cutAt h)
    next =>
      split at h
      next =>
        rw [List.mem_singleton.mp h]
        exact List.cons_subset.mpr ⟨List.mem_cons_self, List.nil_subset _⟩
      next first more hcut =>
        rcases List.mem_cons.mp h with rfl | h
        · exact List.cons_subset_cons _ (mem_of_mem_cutAt (hcut ▸ List.mem_cons_self))
        · exact List.subset_cons_of_subset _ (mem_of_mem_cutAt (hcut ▸ List.mem_cons_of_mem _ h))

/-- A piece of a text has only characters of the text. -/
theorem mem_of_mem_pieces {mark s piece : List Char} {c : Char} (hpiece : piece ∈ pieces mark s)
    (hc : c ∈ piece) : c ∈ s := by
  obtain ⟨ts, hts, rfl⟩ := List.mem_map.mp hpiece
  obtain ⟨t, ht, hct⟩ := mem_join.mp (mem_of_mem_strip hc)
  exact mem_of_mem_token (mem_of_mem_cutAt hts ht) hct

end Token

namespace Expression

open Token

/-! ## Respelling -/

/-- The characters that the spellings bring in. -/
def spellingChars : List Char :=
  "and or not True False None true false null nullptr&|!\"\\".toList

/-- Taking escapes away adds no character. -/
theorem mem_of_mem_unescapeSingle {c : Char} : ∀ {s : List Char}, c ∈ unescapeSingle s → c ∈ s
  | [], h => h
  | [_], h => h
  | d :: e :: rest, h => by
    rw [unescapeSingle] at h
    split at h
    next =>
      rcases List.mem_cons.mp h with rfl | h
      · exact List.mem_cons_of_mem _ List.mem_cons_self
      · exact List.mem_cons_of_mem _ (List.mem_cons_of_mem _ (mem_of_mem_unescapeSingle h))
    next =>
      rcases List.mem_cons.mp h with rfl | h
      · exact List.mem_cons_self
      · exact List.mem_cons_of_mem _ (mem_of_mem_unescapeSingle h)

/-- Escaping adds only backslashes. -/
theorem mem_of_mem_escapeDouble {c : Char} : ∀ {s : List Char} {escaped : Bool},
    c ∈ escapeDouble escaped s → c = '\\' ∨ c ∈ s
  | [], _, h => absurd h List.not_mem_nil
  | d :: rest, escaped, h => by
    rw [escapeDouble] at h
    split at h
    next =>
      rcases List.mem_cons.mp h with rfl | h
      · exact Or.inl rfl
      rcases List.mem_cons.mp h with rfl | h
      · exact Or.inr List.mem_cons_self
      · exact (mem_of_mem_escapeDouble h).imp_right (List.mem_cons_of_mem _)
    next =>
      rcases List.mem_cons.mp h with rfl | h
      · exact Or.inr List.mem_cons_self
      · exact (mem_of_mem_escapeDouble h).imp_right (List.mem_cons_of_mem _)

/-- Changing the quotes adds only double quotes and backslashes. -/
theorem mem_of_mem_toDoubleQuoted {c : Char} {literal : List Char}
    (h : c ∈ toDoubleQuoted literal) : c = '"' ∨ c = '\\' ∨ c ∈ literal := by
  rw [toDoubleQuoted, List.cons_append, List.mem_cons, List.mem_append, List.mem_singleton] at h
  rcases h with h | h | h
  · exact Or.inl h
  · rcases mem_of_mem_escapeDouble h with h | h
    · exact Or.inr (Or.inl h)
    · have := mem_of_mem_unescapeSingle h
      exact Or.inr (Or.inr (List.mem_of_mem_drop ((List.dropLast_sublist _).subset this)))
  · exact Or.inl h

/-- A text that a spelling brings in: not blank, and of its characters only. -/
def IsSpellingWord (text : List Char) : Prop := text ⊆ spellingChars ∧ allBlank text = false

theorem isSpellingWord_between {word : List Char} (h : IsSpellingWord word) (before after : Bool) :
    IsSpellingWord (gap before ++ word ++ gap after) := by
  have hgap : ∀ present, gap present ⊆ spellingChars := by decide
  refine ⟨?_, ?_⟩
  · exact List.append_subset.mpr
      ⟨List.append_subset.mpr ⟨hgap before, h.1⟩, hgap after⟩
  · rw [allBlank, List.all_append, List.all_append, show word.all isBlank = false from h.2]
    simp

theorem isSpellingWord_truth (spelling : Spelling) (value : Bool) :
    IsSpellingWord (spelling.truth value) := by
  cases spelling <;> cases value <;> exact ⟨by decide, by decide⟩

theorem isSpellingWord_null (spelling : Spelling) : IsSpellingWord spelling.null := by
  cases spelling <;> exact ⟨by decide, by decide⟩

variable {spelling : Spelling} {previous next : Option Token} {t : Token}

/-- What is written for a token: its own text, a text in other quotes, or a word of the spelling. -/
theorem spellToken_cases (spelling : Spelling) (previous next : Option Token) (t : Token) :
    (spellToken spelling previous next t).1 = t.text ∨
      (spellToken spelling previous next t).1 = toDoubleQuoted t.text ∨
      IsSpellingWord (spellToken spelling previous next t).1 := by
  unfold spellToken
  split
  next =>
    split
    next =>
      refine Or.inr (Or.inr (isSpellingWord_between ?_ _ _))
      split
      · exact ⟨by decide, by decide⟩
      · exact ⟨by decide, by decide⟩
    next =>
      split
      next =>
        have hnot : IsSpellingWord "not ".toList := ⟨by decide, by decide⟩
        have := isSpellingWord_between hnot (isGap previous || previous.any (·.text = ['('])) true
        refine Or.inr (Or.inr ?_)
        simpa [gap] using this
      next => exact Or.inl rfl
  next =>
    split
    next => exact Or.inr (Or.inr ⟨by decide, by decide⟩)
    next =>
      split
      next => exact Or.inr (Or.inr ⟨by decide, by decide⟩)
      next =>
        split
        next => exact Or.inr (Or.inr ⟨by decide, by decide⟩)
        next =>
          split
          next => exact Or.inr (Or.inr (isSpellingWord_truth _ _))
          next =>
            split
            next => exact Or.inr (Or.inr (isSpellingWord_truth _ _))
            next =>
              split
              next => exact Or.inr (Or.inr (isSpellingWord_null _))
              next => exact Or.inl rfl
  next =>
    split
    next => exact Or.inr (Or.inl rfl)
    next => exact Or.inl rfl
  next => exact Or.inl rfl

/-- Spelling a token adds only characters of the spellings. -/
theorem mem_of_mem_spellToken {c : Char} (h : c ∈ (spellToken spelling previous next t).1) :
    c ∈ t.text ∨ c ∈ spellingChars := by
  rcases spellToken_cases spelling previous next t with heq | heq | hword
  · exact Or.inl (heq ▸ h)
  · rw [heq] at h
    rcases mem_of_mem_toDoubleQuoted h with rfl | rfl | h
    · exact Or.inr (by decide)
    · exact Or.inr (by decide)
    · exact Or.inl h
  · exact Or.inr (hword.1 h)

/-- A token that is not blank is not spelled as blanks. -/
theorem solid_spellToken (h : Solid t.text) :
    Solid (spellToken spelling previous next t).1 := by
  rcases spellToken_cases spelling previous next t with heq | heq | hword
  · exact heq ▸ h
  · exact heq ▸ ⟨'"', List.mem_cons_self, by decide⟩
  · exact solid_iff.mpr hword.2

theorem mem_of_mem_spellTokens {c : Char} : ∀ {ts : List Token} {previous : Option Token}
    {dropBlank : Bool}, c ∈ spellTokens spelling previous dropBlank ts →
      (∃ t ∈ ts, c ∈ t.text) ∨ c ∈ spellingChars
  | [], _, _, h => absurd h List.not_mem_nil
  | t :: rest, previous, dropBlank, h => by
    have hrest : ∀ {dropBlank}, c ∈ spellTokens spelling (some t) dropBlank rest →
        (∃ u ∈ t :: rest, c ∈ u.text) ∨ c ∈ spellingChars := fun h =>
      (mem_of_mem_spellTokens h).imp_left fun ⟨u, hu, hc⟩ => ⟨u, List.mem_cons_of_mem _ hu, hc⟩
    rw [spellTokens] at h
    split at h
    next => exact hrest h
    next =>
      rcases List.mem_append.mp h with h | h
      · exact (mem_of_mem_spellToken h).imp_left fun hc => ⟨t, List.mem_cons_self, hc⟩
      · exact hrest h

/-- A token other than a blank is not dropped. -/
theorem solid_spellTokens : ∀ {ts : List Token} {previous : Option Token} {dropBlank : Bool},
    t ∈ ts → t.kind ≠ .space → Solid t.text → Solid (spellTokens spelling previous dropBlank ts)
  | [], _, _, ht, _, _ => absurd ht List.not_mem_nil
  | u :: rest, previous, dropBlank, ht, hkind, hsolid => by
    rw [spellTokens]
    rcases List.mem_cons.mp ht with rfl | ht
    · rw [if_neg (by simp [hkind])]
      exact (solid_spellToken hsolid).mono fun c hc _ => List.mem_append_left _ hc
    · split
      next => exact solid_spellTokens ht hkind hsolid
      next =>
        exact (solid_spellTokens ht hkind hsolid).mono fun c hc _ => List.mem_append_right _ hc

/-- **The characters of a respelled expression come from the expression or from the spelling.** -/
theorem mem_spell {s : String} {c : Char} (h : c ∈ (spell spelling s).toList) :
    c ∈ s.toList ∨ c ∈ spellingChars := by
  rw [spell, String.toList_ofList] at h
  refine (mem_of_mem_spellTokens h).imp_left fun ⟨t, ht, hc⟩ => ?_
  exact mem_of_mem_strip (mem_of_mem_token ht hc)

/-- **An expression with something in it does not become blank when it is respelled.** -/
theorem solid_spell {s : String} (h : Solid s.toList) : Solid (spell spelling s).toList := by
  obtain ⟨c, hc, hblank⟩ := h
  obtain ⟨t, ht, hct⟩ := exists_token_of_mem (mem_strip hc hblank)
  have hsolid : Solid t.text := ⟨c, hct, hblank⟩
  rw [spell, String.toList_ofList]
  exact solid_spellTokens ht (kind_ne_space ht hsolid) hsolid

/-! ## Qualifying -/

/-- Qualifying keeps all characters. -/
theorem mem_qualifyTokens {isField : List Char → Bool} {lead : List Char} {c : Char} :
    ∀ {ts : List Token} {previous : List Char}, (∃ t ∈ ts, c ∈ t.text) →
      c ∈ qualifyTokens isField lead previous ts
  | [], _, ⟨_, ht, _⟩ => absurd ht List.not_mem_nil
  | u :: rest, previous, ⟨t, ht, hc⟩ => by
    rw [qualifyTokens, List.mem_append]
    rcases List.mem_cons.mp ht with rfl | ht
    · refine Or.inl ?_
      split
      next => exact List.mem_append_right _ hc
      next => exact hc
    · exact Or.inr (mem_qualifyTokens ⟨t, ht, hc⟩)

/-- Qualifying does not empty a text. -/
theorem solid_qualify {names : List String} {lead s : String} (h : Solid s.toList) :
    Solid (qualify names lead s).toList := by
  refine h.mono fun c hc _ => ?_
  rw [qualify, String.toList_ofList]
  exact mem_qualifyTokens (exists_token_of_mem hc)

/-- The statement of a step is not empty if the step is not. -/
theorem solid_step {step : String} (h : Solid step.toList) :
    Solid (LoopStep.statement step).toList := by
  unfold LoopStep.statement
  split
  next =>
    split
    next => exact solid_spell h
    next =>
      refine ⟨'=', ?_, by decide⟩
      simp only [String.toList_append, List.mem_append]
      refine Or.inl (Or.inr ?_)
      split <;> decide
  next => exact solid_spell h

/-! ## Sums and initialisers -/

theorem mem_of_mem_joinPlus {c : Char} : ∀ {parts : List (List Char)}, c ∈ joinPlus parts →
    (∃ part ∈ parts, c ∈ part) ∨ c = ' ' ∨ c = '+'
  | [], h => absurd h List.not_mem_nil
  | [part], h => Or.inl ⟨part, List.mem_cons_self, h⟩
  | part :: next :: rest, h => by
    have h : c ∈ part ++ [' ', '+', ' '] ++ joinPlus (next :: rest) := h
    rw [List.mem_append, List.mem_append] at h
    rcases h with (h | h) | h
    · exact Or.inl ⟨part, List.mem_cons_self, h⟩
    · simp only [List.mem_cons, List.not_mem_nil, or_false] at h
      rcases h with h | h | h
      · exact Or.inr (Or.inl h)
      · exact Or.inr (Or.inr h)
      · exact Or.inr (Or.inl h)
    · exact (mem_of_mem_joinPlus h).imp_left fun ⟨p, hp, hc⟩ => ⟨p, List.mem_cons_of_mem _ hp, hc⟩

theorem mem_of_joinLeading? {parts joined : List (List Char)} (h : joinLeading? parts = some joined)
    {part : List Char} (hpart : part ∈ joined) {c : Char} (hc : c ∈ part) :
    (∃ part ∈ parts, c ∈ part) ∨ c = ' ' ∨ c = '+' := by
  have hdrop : ∀ {p}, p ∈ parts.dropWhile (!isStringLiteral ·) → p ∈ parts := fun hp =>
    (List.dropWhile_sublist _).subset hp
  have htake : ∀ {p}, p ∈ parts.takeWhile (!isStringLiteral ·) → p ∈ parts := fun hp =>
    (List.takeWhile_sublist _).subset hp
  unfold joinLeading? at h
  split at h
  next => cases h
  next =>
    split at h
    next =>
      cases h
      exact Or.inl ⟨part, hdrop hpart, hc⟩
    next =>
      cases h
      rcases List.mem_cons.mp hpart with rfl | hpart
      · exact (mem_of_mem_joinPlus hc).imp_left fun ⟨p, hp, hc⟩ => ⟨p, htake hp, hc⟩
      · exact Or.inl ⟨part, hdrop hpart, hc⟩

/-- The parts of a sum have only characters of the sum, besides the signs put back between them. -/
theorem mem_of_splitConcat? {s : String} {parts : List String} (h : splitConcat? s = some parts)
    {part : String} (hpart : part ∈ parts) {c : Char} (hc : c ∈ part.toList) :
    c ∈ s.toList ∨ c = ' ' ∨ c = '+' := by
  obtain ⟨joined, hjoined, rfl⟩ := Option.map_eq_some_iff.mp h
  obtain ⟨text, htext, rfl⟩ := List.mem_map.mp hpart
  rw [String.toList_ofList] at hc
  unfold concatPieces? at hjoined
  simp only at hjoined
  split at hjoined
  next => cases hjoined
  next =>
    refine (mem_of_joinLeading? hjoined htext hc).imp_left fun ⟨p, hp, hc⟩ => ?_
    exact mem_of_mem_strip (mem_of_mem_pieces hp hc)

/-- A variable and what follows it are parts of the text. -/
theorem takeVariable_subset {s name rest : List Char} (h : takeVariable s = some (name, rest)) :
    name ⊆ s ∧ rest ⊆ s := by
  unfold takeVariable at h
  split at h
  next => cases h
  next c more =>
    split at h
    next =>
      cases h
      exact ⟨List.cons_subset_cons _ (List.takeWhile_sublist _).subset,
        List.subset_cons_of_subset _ (List.dropWhile_sublist _).subset⟩
    next => cases h

theorem tailText?_subset {s text : List Char} (h : tailText? s = some text) : text ⊆ s := by
  unfold tailText? at h
  split at h
  next =>
    obtain ⟨c, hc, rfl⟩ := Option.map_eq_some_iff.mp h
    have := List.mem_of_getLast? hc
    exact List.cons_subset.mpr ⟨(List.mem_filter.mp this).1, List.nil_subset _⟩
  next =>
    split at h
    next => cases h
    next =>
      cases h
      exact fun c hc => mem_of_mem_strip hc

theorem afterSign?_subset {sign s rest : List Char} (h : afterSign? sign s = some rest) :
    rest ⊆ s := by
  unfold afterSign? at h
  simp only at h
  split at h
  next =>
    cases h
    exact fun c hc => (List.dropWhile_sublist _).subset (List.mem_of_mem_drop hc)
  next => cases h

namespace LoopInit

/-- The name and the value of an assignment are parts of the text. -/
theorem assignment?_subset {s name value : List Char} (h : assignment? s = some (name, value)) :
    name ⊆ s ∧ value ⊆ s := by
  obtain ⟨⟨name', rest⟩, hname, h⟩ := Option.bind_eq_some_iff.mp h
  obtain ⟨tail, htail, h⟩ := Option.bind_eq_some_iff.mp h
  obtain ⟨text, htext, h⟩ := Option.bind_eq_some_iff.mp h
  cases h
  obtain ⟨hname, hrest⟩ := takeVariable_subset hname
  exact ⟨hname, fun c hc => hrest (afterSign?_subset htail (tailText?_subset htext hc))⟩

theorem takeType_subset {s type rest : List Char} (h : takeType s = some (type, rest)) :
    type ⊆ s ∧ rest ⊆ s := by
  unfold takeType at h
  split at h
  next => cases h
  next c more =>
    split at h
    next => cases h
    next d tail hdrop =>
      split at h
      next =>
        cases h
        have htail : d :: tail ⊆ more := hdrop ▸ (List.dropWhile_sublist _).subset
        refine ⟨List.cons_subset_cons _ (List.takeWhile_sublist _).subset, fun c hc => ?_⟩
        exact List.mem_cons_of_mem _ (htail (List.mem_cons_of_mem _
          ((List.dropWhile_sublist _).subset hc)))
      next => cases h

/-- The parts of an initialiser are made of its characters. -/
theorem subset_of_parse? {s : String} {i : LoopInit} (h : parse? s = some i) :
    i.name.toList ⊆ s.toList ∧ i.value.toList ⊆ s.toList ∧
      ∀ type ∈ i.declared, type.toList ⊆ s.toList := by
  have hstart : stripStart s.toList ⊆ s.toList := (List.dropWhile_sublist _).subset
  unfold parse? at h
  simp only at h
  split at h
  next type name value htyped =>
    cases h
    obtain ⟨⟨type', rest⟩, htype, h⟩ := Option.bind_eq_some_iff.mp htyped
    obtain ⟨⟨name', value'⟩, hassignment, h⟩ := Option.bind_eq_some_iff.mp h
    simp only at h
    split at h
    next => cases h
    next =>
      cases h
      obtain ⟨htype, hrest⟩ := takeType_subset htype
      obtain ⟨hname, hvalue⟩ := assignment?_subset hassignment
      refine ⟨?_, ?_, ?_⟩
      · rw [String.toList_ofList]
        exact List.Subset.trans (List.Subset.trans hname hrest) hstart
      · rw [String.toList_ofList]
        exact List.Subset.trans (List.Subset.trans hvalue hrest) hstart
      · rintro _ ⟨⟩
        rw [String.toList_ofList]
        exact List.Subset.trans htype hstart
  next =>
    obtain ⟨⟨name, value⟩, hassignment, rfl⟩ := Option.map_eq_some_iff.mp h
    obtain ⟨hname, hvalue⟩ := assignment?_subset hassignment
    refine ⟨?_, ?_, by simp⟩
    · rw [String.toList_ofList]
      exact List.Subset.trans hname hstart
    · rw [String.toList_ofList]
      exact List.Subset.trans hvalue hstart

end LoopInit

end Expression

end Blockflow
