import Blockflow.Proofs.Expression.Stripping

/-!
# The table of a spelling

A spelling exchanges a few tokens for others: which ones for which, a table says
(`Expression.Spelling.table`). A token between its neighbours becomes its own text or the text that
the table gives for it, with a blank before or after it where it needs one
(`Expression.spells_spellToken`).
-/

namespace Blockflow.Expression

open Text Token

/-! ## The table -/

/-- The operator and the name with this text. -/
def sign (s : String) : Token := ⟨.op, s.toList⟩

@[inherit_doc sign]
def word (s : String) : Token := ⟨.name, s.toList⟩

namespace Spelling

/-- The two operations that stand between their operands. -/
def joins : List (Token × Token) := [(sign "&&", word "and"), (sign "||", word "or")]

/-- The words for the truth values and the null value, in every spelling. -/
def constants (yes no null : String) : List (Token × Token) :=
  ["true", "True"].map (word ·, word yes) ++ ["false", "False"].map (word ·, word no) ++
    ["null", "None", "nullptr"].map (word ·, word null)

/-- Which tokens a spelling exchanges for which. -/
def table : Spelling → List (Token × Token)
  | .words => joins ++ [(sign "!", word "not")] ++ constants "True" "False" "None"
  | .signs => joins.map Prod.swap ++ [(word "not", sign "!")] ++ constants "true" "false" "null"
  | .signsNullptr =>
    joins.map Prod.swap ++ [(word "not", sign "!")] ++ constants "true" "false" "nullptr"

/-- A token in the spelling: it is exchanged as the table says, or stays. -/
def respelled (spelling : Spelling) (t : Token) : Token := (spelling.table.lookup t).getD t

theorem respelled_of_mem (spelling : Spelling) {t u : Token} (h : (t, u) ∈ spelling.table) :
    spelling.respelled t = u := by
  have hall : ∀ entry ∈ spelling.table, spelling.respelled entry.1 = entry.2 := by
    cases spelling <;> decide
  exact hall (t, u) h

theorem respelled_cases (spelling : Spelling) (t : Token) :
    spelling.respelled t = t ∨ (t, spelling.respelled t) ∈ spelling.table := by
  unfold respelled
  cases hlookup : spelling.table.lookup t with
  | none => exact Or.inl rfl
  | some u =>
    obtain ⟨before, after, heq, -⟩ := List.lookup_eq_some_iff.mp hlookup
    refine Or.inr ?_
    rw [heq, Option.getD_some]
    exact List.mem_append_right _ List.mem_cons_self

theorem respelled_respelled (spelling : Spelling) (t : Token) :
    spelling.respelled (spelling.respelled t) = spelling.respelled t := by
  have hall : ∀ entry ∈ spelling.table, spelling.respelled entry.2 = entry.2 := by
    cases spelling <;> decide
  rcases spelling.respelled_cases t with h | h
  · rw [h, h]
  · exact hall _ h

/-- With signs the words of the two operations are exchanged for their signs. -/
theorem mem_table_of_mem_joins {spelling : Spelling} (hwords : spelling ≠ .words) {u v : Token}
    (h : (u, v) ∈ joins) : (v, u) ∈ spelling.table := by
  have hall : ∀ entry ∈ joins, (entry.2, entry.1) ∈ spelling.table := by
    cases spelling with
    | words => exact absurd rfl hwords
    | signs | signsNullptr => decide
  exact hall _ h

theorem respelled_not {spelling : Spelling} (hwords : spelling ≠ .words) :
    spelling.respelled (word "not") = sign "!" := by
  cases spelling with
  | words => exact absurd rfl hwords
  | signs | signsNullptr => decide

/-- Is the token one of those that the table exchanges? -/
def exchanges (spelling : Spelling) (t : Token) : Bool :=
  match t.kind with
  | .op => spelling = .words && (t.text = ['&', '&'] || t.text = ['|', '|'] || t.text = ['!'])
  | .name =>
    spelling ≠ .words && isLogicWord t.text || isTrueWord t.text || isFalseWord t.text ||
      isNullWord t.text
  | _ => false

theorem respelled_eq_self {spelling : Spelling} {t : Token} (h : spelling.exchanges t = false) :
    spelling.respelled t = t := by
  have hall : ∀ entry ∈ spelling.table, spelling.exchanges entry.1 = true := by
    cases spelling <;> decide
  rcases spelling.respelled_cases t with heq | hmem
  · exact heq
  · rw [hall _ hmem] at h
    cases h

end Spelling

/-! ## What becomes of a token -/

/-- Is the token a text in single quotes that a spelling with signs puts in double ones? -/
def isRequoted (t : Token) : Bool :=
  t.kind = .string && t.text.head? = some '\x27' && quotedType t.text = .string

/-- The text that a token becomes between its neighbours, and whether a blank after it is
dropped. -/
inductive Spells (previous next : Option Token) : Spelling → Token → List Char → Bool → Prop
  | same {spelling : Spelling} {t : Token} :
    spelling.respelled t = t → Spells previous next spelling t t.text false
  | constant {spelling : Spelling} {t u : Token} :
    (t, u) ∈ spelling.table → t.kind = .name → u.kind = .name →
      Spells previous next spelling t u.text false
  | joinWord {t u : Token} : (t, u) ∈ Spelling.joins →
    Spells previous next .words t (gap (isGap previous) ++ u.text ++ gap (isGap next)) false
  | notWord :
    Spells previous next .words (sign "!")
      (gap (isGap previous || previous.any (·.text = ['('])) ++ "not ".toList) true
  | joinSign {spelling : Spelling} {t u : Token} : spelling ≠ .words → (u, t) ∈ Spelling.joins →
    Spells previous next spelling t u.text false
  | notSign {spelling : Spelling} : spelling ≠ .words →
    Spells previous next spelling (word "not") ['!'] true

section

variable {spelling : Spelling} {previous next : Option Token} {t : Token}

theorem spells_op (text : List Char) :
    Spells previous next spelling ⟨.op, text⟩ (spellToken spelling previous next ⟨.op, text⟩).1
      (spellToken spelling previous next ⟨.op, text⟩).2 := by
  by_cases hwords : spelling = .words
  · subst hwords
    by_cases hand : text = ['&', '&']
    · subst hand
      exact Spells.joinWord (u := word "and") (by decide)
    by_cases hor : text = ['|', '|']
    · subst hor
      exact Spells.joinWord (u := word "or") (by decide)
    by_cases hnot : text = ['!']
    · subst hnot
      exact Spells.notWord
    · have hsame : Spelling.words.exchanges ⟨.op, text⟩ = false := by
        simp [Spelling.exchanges, hand, hor, hnot]
      simpa [spellToken, hand, hor, hnot] using Spells.same (Spelling.respelled_eq_self hsame)
  · have hsame : spelling.exchanges ⟨.op, text⟩ = false := by simp [Spelling.exchanges, hwords]
    simpa [spellToken, hwords] using Spells.same (Spelling.respelled_eq_self hsame)

/-- A word for a truth value or the null value becomes the one of the spelling. -/
theorem spells_constant {text v : List Char}
    (hspell : spellToken spelling previous next ⟨.name, text⟩ = (v, false))
    (hmem : (⟨.name, text⟩, ⟨.name, v⟩) ∈ spelling.table) :
    Spells previous next spelling ⟨.name, text⟩ (spellToken spelling previous next ⟨.name, text⟩).1
      (spellToken spelling previous next ⟨.name, text⟩).2 := by
  rw [hspell]
  exact Spells.constant hmem rfl rfl

theorem spells_name (text : List Char) :
    Spells previous next spelling ⟨.name, text⟩ (spellToken spelling previous next ⟨.name, text⟩).1
      (spellToken spelling previous next ⟨.name, text⟩).2 := by
  by_cases hlogic : spelling ≠ .words ∧ isLogicWord text = true
  · obtain ⟨hwords, hlogic⟩ := hlogic
    simp only [isLogicWord, Bool.or_eq_true, decide_eq_true_eq] at hlogic
    rcases hlogic with (rfl | rfl) | rfl
    · have hjoin : Spells previous next spelling (word "and") ['&', '&'] false :=
        Spells.joinSign hwords (u := sign "&&") (by decide)
      cases spelling <;> first | exact absurd rfl hwords | exact hjoin
    · have hjoin : Spells previous next spelling (word "or") ['|', '|'] false :=
        Spells.joinSign hwords (u := sign "||") (by decide)
      cases spelling <;> first | exact absurd rfl hwords | exact hjoin
    · have hnot : Spells previous next spelling (word "not") ['!'] true := Spells.notSign hwords
      cases spelling <;> first | exact absurd rfl hwords | exact hnot
  by_cases htrue : isTrueWord text = true
  · simp only [isTrueWord, Bool.or_eq_true, decide_eq_true_eq] at htrue
    refine spells_constant (v := spelling.truth true) ?_ ?_
    · rcases htrue with rfl | rfl <;> cases spelling <;> rfl
    · rcases htrue with rfl | rfl <;> cases spelling <;> decide
  by_cases hfalse : isFalseWord text = true
  · simp only [isFalseWord, Bool.or_eq_true, decide_eq_true_eq] at hfalse
    refine spells_constant (v := spelling.truth false) ?_ ?_
    · rcases hfalse with rfl | rfl <;> cases spelling <;> rfl
    · rcases hfalse with rfl | rfl <;> cases spelling <;> decide
  by_cases hnull : isNullWord text = true
  · simp only [isNullWord, Bool.or_eq_true, decide_eq_true_eq] at hnull
    refine spells_constant (v := spelling.null) ?_ ?_
    · rcases hnull with (rfl | rfl) | rfl <;> cases spelling <;> rfl
    · rcases hnull with (rfl | rfl) | rfl <;> cases spelling <;> decide
  · have hsame : spelling.exchanges ⟨.name, text⟩ = false := by
      simpa [Spelling.exchanges, htrue, hfalse, hnull] using hlogic
    have hspell : spellToken spelling previous next ⟨.name, text⟩ = (text, false) := by
      have hnot : ∀ w, isLogicWord w = true →
          (decide (spelling ≠ .words) && decide (text = w)) = false := by
        intro w hw
        by_contra h
        simp only [Bool.not_eq_false, Bool.and_eq_true, decide_eq_true_eq] at h
        exact hlogic ⟨h.1, h.2 ▸ hw⟩
      simp only [spellToken, hnot _ (show isLogicWord "and".toList = true from rfl),
        hnot _ (show isLogicWord "or".toList = true from rfl),
        hnot _ (show isLogicWord "not".toList = true from rfl), htrue, hfalse, hnull]
      rfl
    rw [hspell]
    exact Spells.same (Spelling.respelled_eq_self hsame)

/-- What becomes of a token, unless its quotes are changed. -/
theorem spells_spellToken (previous next : Option Token)
    (hquote : spelling ≠ .words → isRequoted t = false) :
    Spells previous next spelling t (spellToken spelling previous next t).1
      (spellToken spelling previous next t).2 := by
  obtain ⟨kind, text⟩ := t
  have hsame : spelling.exchanges ⟨kind, text⟩ = false →
      spellToken spelling previous next ⟨kind, text⟩ = (text, false) →
      Spells previous next spelling ⟨kind, text⟩ (spellToken spelling previous next ⟨kind, text⟩).1
        (spellToken spelling previous next ⟨kind, text⟩).2 := by
    intro hstays hspell
    rw [hspell]
    exact Spells.same (Spelling.respelled_eq_self hstays)
  cases kind with
  | op => exact spells_op text
  | name => exact spells_name text
  | string =>
    refine hsame rfl ?_
    by_cases hwords : spelling = .words
    · simp [spellToken, hwords]
    · have hquote := hquote hwords
      simp only [isRequoted, decide_true, Bool.true_and] at hquote
      have hcond : (decide (spelling ≠ .words) && decide (text.head? = some '\x27') &&
          decide (quotedType text = .string)) = false := by
        rw [Bool.and_assoc, hquote, Bool.and_false]
      simp only [spellToken, hcond]
      rfl
  | number | space | other => exact hsame rfl rfl

end

end Blockflow.Expression
