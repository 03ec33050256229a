import Blockflow.Proofs.Expression.Stripping

/-!
# Other quotes around a text

What stands between quotes is read from the left: a backslash takes the next character with it
(`Expression.QuotedChar`). A text in single quotes is put in double ones by two replacements that
look at neighbouring characters only. Read in pairs, they change a single quote that is escaped and
a double quote that is not, and nothing else (`Expression.escapeDouble_unescapeSingle`), but a
double quote directly behind an escaped backslash is taken for an escaped one. So the new text means
what the old one meant, and it ends where it should if and only if there is no such double quote
(`Expression.toDoubleQuoted_iff`).
-/

namespace Blockflow.Expression

open Text Token

/-! ## Reading in pairs -/

/-- A character between quotes, or a backslash and the character that it takes along. -/
inductive QuotedChar where
  | plain (c : Char)
  | escape (c : Char)
deriving DecidableEq

namespace QuotedChar

def chars : QuotedChar → List Char
  | .plain c => [c]
  | .escape c => ['\\', c]

/-- The characters that it stands for, where `meaning` says what the escapes other than those of
quotes stand for. -/
def value (meaning : Char → List Char) : QuotedChar → List Char
  | .plain c => [c]
  | .escape c => if isQuote c then [c] else meaning c

/-- Can it stand between these quotes? -/
def isWithin (quote : Char) : QuotedChar → Bool
  | .plain c => c ≠ quote && c ≠ '\\'
  | .escape c => c ≠ '\n'

end QuotedChar

open QuotedChar

/-- What stands between quotes, read from the left. -/
def readPairs : List Char → List QuotedChar
  | [] => []
  | c :: rest =>
    if c = '\\' then
      match rest with
      | [] => [.plain c]
      | d :: more => .escape d :: readPairs more
    else .plain c :: readPairs rest

def writePairs (ps : List QuotedChar) : List Char := ps.flatMap chars

theorem writePairs_plain (c : Char) (ps : List QuotedChar) :
    writePairs (.plain c :: ps) = c :: writePairs ps := rfl

theorem writePairs_escape (c : Char) (ps : List QuotedChar) :
    writePairs (.escape c :: ps) = '\\' :: c :: writePairs ps := rfl

/-- What stands between the quotes of a literal. -/
def inner (literal : List Char) : List Char := (literal.drop 1).dropLast

/-- The characters that a literal stands for. -/
def denoted (meaning : Char → List Char) (literal : List Char) : List Char :=
  (readPairs (inner literal)).flatMap (value meaning)

variable {ps : List QuotedChar} {quote : Char}

theorem readPairs_writePairs (h : ∀ p ∈ ps, p ≠ .plain '\\') : readPairs (writePairs ps) = ps := by
  induction ps with
  | nil => rfl
  | cons p rest ih =>
    obtain ⟨hp, hrest⟩ := List.forall_mem_cons.mp h
    cases p with
    | plain c =>
      have hc : c ≠ '\\' := fun hc => hp (by rw [hc])
      rw [writePairs_plain, readPairs.eq_def]
      simp [hc, ih hrest]
    | escape c =>
      rw [writePairs_escape, readPairs.eq_def]
      simp [ih hrest]

/-- A text ends at the quote behind characters that can all stand between these quotes. -/
theorem closeQuote?_writePairs (hquote : '\\' ≠ quote) (h : ∀ p ∈ ps, p.isWithin quote = true) :
    closeQuote? quote (writePairs ps ++ [quote]) = some (writePairs ps ++ [quote]) := by
  induction ps with
  | nil => exact closeQuote?_quote quote []
  | cons p rest ih =>
    obtain ⟨hp, hrest⟩ := List.forall_mem_cons.mp h
    cases p with
    | plain c =>
      simp only [isWithin, Bool.and_eq_true, decide_eq_true_eq] at hp
      rw [writePairs_plain, List.cons_append, closeQuote?_plain hp.1 hp.2, ih hrest,
        Option.map_some]
    | escape c =>
      simp only [isWithin, decide_eq_true_eq] at hp
      rw [writePairs_escape, List.cons_append, List.cons_append, closeQuote?_escape hquote hp,
        ih hrest, Option.map_some]

/-- If it ends at the last quote only, no other quote stands bare before it. -/
theorem isWithin_of_closeQuote? (hquote : '\\' ≠ quote)
    (hps : ∀ p ∈ ps, p ≠ .plain '\\' ∧ p ≠ .escape '\n')
    (h : closeQuote? quote (writePairs ps ++ [quote]) = some (writePairs ps ++ [quote])) :
    ∀ p ∈ ps, p.isWithin quote = true := by
  induction ps with
  | nil => simp
  | cons p rest ih =>
    obtain ⟨hp, hrest⟩ := List.forall_mem_cons.mp hps
    cases p with
    | plain c =>
      have hslash : c ≠ '\\' := fun hc => hp.1 (by rw [hc])
      rw [writePairs_plain, List.cons_append] at h
      by_cases hc : c = quote
      · rw [hc, closeQuote?_quote] at h
        simp at h
      · rw [closeQuote?_plain hc hslash, Option.map_eq_some_iff] at h
        obtain ⟨body, hbody, heq⟩ := h
        rw [(List.cons.inj heq).2] at hbody
        exact List.forall_mem_cons.mpr ⟨by simp [isWithin, hc, hslash], ih hrest hbody⟩
    | escape c =>
      have hc : c ≠ '\n' := fun hc => hp.2 (by rw [hc])
      rw [writePairs_escape, List.cons_append, List.cons_append, closeQuote?_escape hquote hc,
        Option.map_eq_some_iff] at h
      obtain ⟨body, hbody, heq⟩ := h
      rw [(List.cons.inj (List.cons.inj heq).2).2] at hbody
      exact List.forall_mem_cons.mpr ⟨by simp [isWithin, hc], ih hrest hbody⟩

/-- A text in quotes consists of characters that can stand between them, and the closing quote. -/
theorem exists_of_closeQuote? {s body : List Char} (h : closeQuote? quote s = some body) :
    ∃ ps, body = writePairs ps ++ [quote] ∧ ∀ p ∈ ps, p.isWithin quote = true := by
  fun_induction closeQuote? quote s generalizing body with
  | case1 => cases h
  | case2 rest =>
    cases h
    exact ⟨[], rfl, by simp⟩
  | case3 => cases h
  | case4 => cases h
  | case5 d more hd hc ih =>
    obtain ⟨b, hb, rfl⟩ := Option.map_eq_some_iff.mp h
    obtain ⟨ps, rfl, hps⟩ := ih hb
    exact ⟨.escape d :: ps, rfl, List.forall_mem_cons.mpr ⟨by simpa [isWithin] using hd, hps⟩⟩
  | case6 c rest hc hslash ih =>
    obtain ⟨b, hb, rfl⟩ := Option.map_eq_some_iff.mp h
    obtain ⟨ps, rfl, hps⟩ := ih hb
    exact ⟨.plain c :: ps, rfl, List.forall_mem_cons.mpr ⟨by simp [isWithin, hc, hslash], hps⟩⟩

/-- One text in quotes and nothing else: it ends at its last character. -/
theorem tokens_eq_string_iff {c : Char} {more : List Char} (hc : isQuote c = true) :
    tokens (c :: more) = [⟨.string, c :: more⟩] ↔ closeQuote? c more = some more := by
  constructor
  · intro h
    have hfits := leads_iff.mp (leads_of_tokens h).1
    simpa [join] using hfits.2
  · intro h
    have hleads : Leads ⟨.string, c :: more⟩ [] := leads_iff.mpr ⟨hc, by simpa using h⟩
    have htokens := hleads.tokens_eq
    rwa [List.append_nil] at htokens

/-! ## The two replacements, in pairs -/

/-- The characters between single quotes as they are written between double ones. The flag says that
the character before is a backslash that was escaped itself. -/
def requoted (escaped : Bool) : List QuotedChar → List QuotedChar
  | [] => []
  | .plain c :: rest =>
    (if c = '"' && !escaped then .escape c else .plain c) :: requoted false rest
  | .escape c :: rest =>
    (if c = '\x27' then .plain c else .escape c) :: requoted (c = '\\') rest

theorem unescapeSingle_cons {c : Char} {s : List Char} (h : c = '\\' → s.head? ≠ some '\x27') :
    unescapeSingle (c :: s) = c :: unescapeSingle s := by
  cases s with
  | nil => rfl
  | cons d rest =>
    rw [unescapeSingle, if_neg]
    intro hboth
    simp only [Bool.and_eq_true, decide_eq_true_eq] at hboth
    exact h hboth.1 (by rw [hboth.2]; rfl)

theorem unescapeSingle_escaped (s : List Char) :
    unescapeSingle ('\\' :: '\x27' :: s) = '\x27' :: unescapeSingle s := by
  rw [unescapeSingle]
  rfl

theorem head_writePairs (h : ∀ p ∈ ps, p.isWithin '\x27' = true) :
    (writePairs ps).head? ≠ some '\x27' := by
  cases ps with
  | nil => simp [writePairs]
  | cons p rest =>
    have hp := h p List.mem_cons_self
    cases p with
    | plain c =>
      simp only [isWithin, Bool.and_eq_true, decide_eq_true_eq] at hp
      simpa [writePairs_plain] using hp.1
    | escape c => simp [writePairs_escape]

/-- **What the two replacements do.** -/
theorem escapeDouble_unescapeSingle (h : ∀ p ∈ ps, p.isWithin '\x27' = true) (escaped : Bool) :
    escapeDouble escaped (unescapeSingle (writePairs ps)) = writePairs (requoted escaped ps) := by
  induction ps generalizing escaped with
  | nil => rfl
  | cons p rest ih =>
    obtain ⟨hp, hrest⟩ := List.forall_mem_cons.mp h
    cases p with
    | plain c =>
      simp only [isWithin, Bool.and_eq_true, decide_eq_true_eq] at hp
      rw [writePairs_plain, unescapeSingle_cons fun hc => absurd hc hp.2, escapeDouble, requoted]
      by_cases hc : c = '"' ∧ escaped = false
      · rw [if_pos (by simpa using hc), if_pos (by simpa using hc), writePairs_escape, ih hrest]
      · rw [if_neg (by simpa using hc), if_neg (by simpa using hc), writePairs_plain, ← ih hrest,
          decide_eq_false hp.2]
    | escape c =>
      rw [writePairs_escape, requoted]
      by_cases hc : c = '\x27'
      · subst hc
        rw [unescapeSingle_escaped, escapeDouble, if_neg (by simp), if_pos rfl, writePairs_plain,
          ← ih hrest]
      · have hbare : unescapeSingle ('\\' :: c :: writePairs rest) =
            '\\' :: c :: unescapeSingle (writePairs rest) := by
          rw [unescapeSingle_cons fun _ => by simpa using hc,
            unescapeSingle_cons fun _ => head_writePairs hrest]
        rw [hbare, escapeDouble, if_neg (by simp), escapeDouble, if_neg (by simp), if_neg hc,
          writePairs_escape, ← ih hrest]

theorem value_requoted (meaning : Char → List Char) (escaped : Bool) :
    (requoted escaped ps).flatMap (value meaning) = ps.flatMap (value meaning) := by
  induction ps generalizing escaped with
  | nil => rfl
  | cons p rest ih =>
    cases p with
    | plain c =>
      rw [requoted, List.flatMap_cons, List.flatMap_cons, ih]
      split
      next hc =>
        simp only [Bool.and_eq_true, decide_eq_true_eq] at hc
        simp [value, hc.1, isQuote]
      next => rfl
    | escape c =>
      rw [requoted, List.flatMap_cons, List.flatMap_cons, ih]
      split
      next hc => simp [value, hc, isQuote]
      next => rfl

/-- No backslash is left alone, and none is put before a line break. -/
theorem of_mem_requoted (h : ∀ p ∈ ps, p.isWithin '\x27' = true) (escaped : Bool) :
    ∀ p ∈ requoted escaped ps, p ≠ .plain '\\' ∧ p ≠ .escape '\n' := by
  induction ps generalizing escaped with
  | nil => simp [requoted]
  | cons p rest ih =>
    obtain ⟨hp, hrest⟩ := List.forall_mem_cons.mp h
    cases p with
    | plain c =>
      simp only [isWithin, Bool.and_eq_true, decide_eq_true_eq] at hp
      refine List.forall_mem_cons.mpr ⟨?_, ih hrest _⟩
      split
      next hc =>
        simp only [Bool.and_eq_true, decide_eq_true_eq] at hc
        simp [hc.1]
      next => simp [hp.2]
    | escape c =>
      simp only [isWithin, decide_eq_true_eq] at hp
      refine List.forall_mem_cons.mpr ⟨?_, ih hrest _⟩
      split
      next hc => simp [hc]
      next => simp [hp]

/-- A double quote stays bare exactly if it stands directly behind an escaped backslash. -/
theorem isWithin_requoted_iff (h : ∀ p ∈ ps, p.isWithin '\x27' = true) (escaped : Bool) :
    (∀ p ∈ requoted escaped ps, p.isWithin '"' = true) ↔
      ¬ (escaped = true ∧ ps.head? = some (.plain '"')) ∧
        ¬ [.escape '\\', .plain '"'] <:+: ps := by
  -- the flag stands for an escaped backslash in front of the list
  induction ps generalizing escaped with
  | nil => simp [requoted]
  | cons p rest ih =>
    obtain ⟨hp, hrest⟩ := List.forall_mem_cons.mp h
    rw [List.infix_cons_iff]
    cases p with
    | plain c =>
      simp only [isWithin, Bool.and_eq_true, decide_eq_true_eq] at hp
      rw [requoted, List.forall_mem_cons, ih hrest]
      have hhead : (if c = '"' && !escaped then escape c else plain c).isWithin '"' = true ↔
          ¬ (escaped = true ∧ c = '"') := by
        by_cases hc : c = '"'
        · subst hc
          cases escaped <;> simp [isWithin]
        · simp [hc, isWithin, hp.2]
      have hprefix : ¬ [escape '\\', plain '"'] <+: plain c :: rest := by
        intro hprefix
        cases (List.cons_prefix_cons.mp hprefix).1
      simp only [hhead, hprefix, List.head?_cons, Option.some.injEq, plain.injEq, false_or,
        Bool.false_eq_true, false_and, not_false_eq_true, true_and]
    | escape c =>
      simp only [isWithin, decide_eq_true_eq] at hp
      rw [requoted, List.forall_mem_cons, ih hrest]
      have hhead : (if c = '\x27' then plain c else escape c).isWithin '"' = true := by
        by_cases hc : c = '\x27'
        · simp [hc, isWithin]
        · simp [hc, isWithin, hp]
      have hprefix : [escape '\\', plain '"'] <+: escape c :: rest ↔
          c = '\\' ∧ rest.head? = some (plain '"') := by
        rw [List.cons_prefix_cons, escape.injEq, eq_comm]
        cases rest with
        | nil => simp
        | cons p more => simp [eq_comm]
      simp only [hhead, hprefix, List.head?_cons, Option.some.injEq, decide_eq_true_eq, not_or,
        true_and, reduceCtorEq, and_false, not_false_eq_true]

/-! ## A literal in other quotes -/

theorem inner_cons (c d : Char) (s : List Char) : inner (c :: (s ++ [d])) = s :=
  List.dropLast_concat

/-- A literal in quotes, taken apart. -/
theorem exists_of_literal {t : List Char} (h : tokens t = [⟨.string, t⟩])
    (hhead : t.head? = some '\x27') : ∃ ps, t = '\x27' :: (writePairs ps ++ ['\x27']) ∧
      readPairs (inner t) = ps ∧ ∀ p ∈ ps, p.isWithin '\x27' = true := by
  obtain ⟨more, rfl⟩ := List.head?_eq_some_iff.mp hhead
  obtain ⟨ps, hmore, hps⟩ := exists_of_closeQuote? ((tokens_eq_string_iff rfl).mp h)
  have hslash : ∀ p ∈ ps, p ≠ .plain '\\' := by
    rintro p hp rfl
    exact absurd (hps _ hp) (by decide)
  refine ⟨ps, by rw [hmore], ?_, hps⟩
  rw [hmore, inner_cons, readPairs_writePairs hslash]

theorem toDoubleQuoted_writePairs (h : ∀ p ∈ ps, p.isWithin '\x27' = true) :
    toDoubleQuoted ('\x27' :: (writePairs ps ++ ['\x27'])) =
      '"' :: (writePairs (requoted false ps) ++ ['"']) := by
  have hinner := inner_cons '\x27' '\x27' (writePairs ps)
  unfold inner at hinner
  rw [toDoubleQuoted, hinner, escapeDouble_unescapeSingle h, List.cons_append]

/-- Every language with signs writes the literal in double quotes. -/
theorem spellChars_literal {spelling : Spelling} (hwords : spelling ≠ .words) {t : List Char}
    (h : tokens t = [⟨.string, t⟩]) (hhead : t.head? = some '\x27')
    (htype : quotedType t = .string) : spellChars spelling t = toDoubleQuoted t := by
  obtain ⟨ps, ht, -, -⟩ := exists_of_literal h hhead
  have hstripped : Stripped t := by
    constructor
    · intro c hc
      rw [hhead] at hc
      cases hc
      decide
    · intro c hc
      rw [ht, List.getLast?_cons, List.getLast?_concat] at hc
      cases hc
      decide
  rw [spellChars, hstripped.strip_eq, h]
  simp [spellTokens, spellToken, hwords, hhead, htype]

/-- **Other quotes around a text keep its meaning** if and only if no bare double quote stands
directly behind an escaped backslash: then the new text is one text in double quotes, and it stands
for the same characters. With such a double quote the new text ends early. -/
theorem toDoubleQuoted_iff {t : List Char} (h : tokens t = [⟨.string, t⟩])
    (hhead : t.head? = some '\x27') (htype : quotedType t = .string)
    (meaning : Char → List Char) :
    (∀ language, language ≠ "python" →
      spell (.ofLanguage language) (String.ofList t) = String.ofList (toDoubleQuoted t)) ∧
    ((tokens (toDoubleQuoted t) = [⟨.string, toDoubleQuoted t⟩] ∧
        (toDoubleQuoted t).head? = some '"' ∧
        denoted meaning (toDoubleQuoted t) = denoted meaning t) ↔
      ¬ [.escape '\\', .plain '"'] <:+: readPairs (inner t)) := by
  obtain ⟨ps, ht, hread, hps⟩ := exists_of_literal h hhead
  have hquoted : toDoubleQuoted t = '"' :: (writePairs (requoted false ps) ++ ['"']) := by
    rw [ht, toDoubleQuoted_writePairs hps]
  have hkept := of_mem_requoted hps false
  have hone : tokens (toDoubleQuoted t) = [⟨.string, toDoubleQuoted t⟩] ↔
      ¬ [.escape '\\', .plain '"'] <:+: ps := by
    have hiff := isWithin_requoted_iff hps false
    simp only [Bool.false_eq_true, false_and, not_false_eq_true, true_and] at hiff
    rw [hquoted, tokens_eq_string_iff rfl, ← hiff]
    exact ⟨isWithin_of_closeQuote? (by decide) hkept, closeQuote?_writePairs (by decide)⟩
  have hdenoted : denoted meaning (toDoubleQuoted t) = denoted meaning t := by
    have hinner : readPairs (inner (toDoubleQuoted t)) = requoted false ps := by
      rw [hquoted, inner_cons, readPairs_writePairs fun p hp => (hkept p hp).1]
    rw [denoted, denoted, hinner, hread, value_requoted]
  refine ⟨fun language hlanguage => ?_, ?_⟩
  · have hwords : Spelling.ofLanguage language ≠ .words := by
      unfold Spelling.ofLanguage
      split
      next heq => exact absurd heq hlanguage
      next => split <;> simp
    rw [spell, String.toList_ofList, spellChars_literal hwords h hhead htype]
  · rw [hread, ← hone]
    exact ⟨fun hall => hall.1, fun hall => ⟨hall, by rw [hquoted]; rfl, hdenoted⟩⟩

/-- Both kinds of quotes, one of them escaped, and an escaped backslash before a blank. -/
theorem toDoubleQuoted_iff_mixed :
    tokens "'say \"it\\'s\" \\\\ so'".toList = [⟨.string, "'say \"it\\'s\" \\\\ so'".toList⟩] ∧
      tokens (toDoubleQuoted "'say \"it\\'s\" \\\\ so'".toList) =
        [⟨.string, toDoubleQuoted "'say \"it\\'s\" \\\\ so'".toList⟩] ∧
      (toDoubleQuoted "'say \"it\\'s\" \\\\ so'".toList).head? = some '"' ∧
      denoted (fun c => [c]) (toDoubleQuoted "'say \"it\\'s\" \\\\ so'".toList) =
        denoted (fun c => [c]) "'say \"it\\'s\" \\\\ so'".toList := by
  have h : tokens "'say \"it\\'s\" \\\\ so'".toList =
      [⟨.string, "'say \"it\\'s\" \\\\ so'".toList⟩] := by
    decide +kernel
  exact ⟨h, (toDoubleQuoted_iff h (by decide +kernel) (by decide +kernel) fun c => [c]).2.mpr
    (by decide +kernel)⟩

/-- Not every text in single quotes is one text in double ones: here the second quote stands behind
an escaped backslash. -/
theorem not_forall_toDoubleQuoted : ¬ ∀ t : List Char, tokens t = [⟨.string, t⟩] →
    t.head? = some '\x27' → quotedType t = .string → ∀ meaning : Char → List Char,
      tokens (toDoubleQuoted t) = [⟨.string, toDoubleQuoted t⟩] ∧
        (toDoubleQuoted t).head? = some '"' ∧
        denoted meaning (toDoubleQuoted t) = denoted meaning t := by
  intro h
  have hone := (h "'a\\\\\"b'".toList (by decide +kernel) (by decide +kernel)
    (by decide +kernel) fun c => [c]).1
  exact absurd hone (by decide +kernel)

end Blockflow.Expression
