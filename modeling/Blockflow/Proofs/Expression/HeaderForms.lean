import Blockflow.Proofs.Expression.Characters
import Blockflow.Proofs.Expression.Counting
import Blockflow.Proofs.Expression.Stripping

/-!
# How headers are written

The parts of a header consist of a few pieces in a fixed order, with blanks around them (`Spaced`).
What an initialiser, a condition or a step says can be told from these pieces alone. The readers of
the three parts find the pieces that are there (`LoopInit.spelled_of_parse?`,
`LoopCondition.spaced_of_parse?`, `LoopStep.spells_of_read?`), and no text can be divided into
pieces in two ways (`LoopInit.parse?_of_spelled`, `LoopCondition.parse?_of_spaced`,
`LoopStep.Spells.unique`).
-/

namespace Blockflow.Expression

open Text

/-! ## Pieces and blanks -/

/-- The text consists of the pieces. Blanks may stand before, between and after them. -/
inductive Spaced : List (List Char) → List Char → Prop where
  | blank {b : List Char} : allBlank b = true → Spaced [] b
  | piece {b p rest : List Char} {ps : List (List Char)} :
      allBlank b = true → Spaced ps rest → Spaced (p :: ps) (b ++ (p ++ rest))

theorem spaced_nil_iff {s : List Char} : Spaced [] s ↔ allBlank s = true := by
  constructor
  · rintro ⟨h⟩
    exact h
  · exact .blank

/-- A first piece comes after blanks, and the other pieces follow it. -/
theorem spaced_cons_iff {p s : List Char} {ps : List (List Char)} :
    Spaced (p :: ps) s ↔
      ∃ b rest, allBlank b = true ∧ Spaced ps rest ∧ s = b ++ (p ++ rest) := by
  constructor
  · rintro (_ | ⟨hb, hrest⟩)
    exact ⟨_, _, hb, hrest, rfl⟩
  · rintro ⟨b, rest, hb, hrest, rfl⟩
    exact .piece hb hrest

/-- The first character, if there is one, is no blank. -/
def StartsSolid (s : List Char) : Prop := ∀ c ∈ s.head?, isBlank c = false

theorem stripStart_append {b s : List Char} (hb : allBlank b = true) (hs : StartsSolid s) :
    stripStart (b ++ s) = s := by
  rw [stripStart, List.dropWhile_append_of_pos (List.all_eq_true.mp hb), dropWhile_eq_self hs]

/-- A text is blanks and then what is left without them. -/
theorem exists_stripStart (s : List Char) : ∃ b, allBlank b = true ∧ s = b ++ stripStart s :=
  ⟨s.takeWhile isBlank, List.all_takeWhile, List.takeWhile_append_dropWhile.symm⟩

theorem allBlank_append {b b' : List Char} (hb : allBlank b = true) (hb' : allBlank b' = true) :
    allBlank (b ++ b') = true := by
  rw [allBlank, List.all_append, Bool.and_eq_true]
  exact ⟨hb, hb'⟩

theorem isWord_of_isBlank {c : Char} (h : isBlank c = true) : isWord c = false := by
  have hall : (blanks.all fun c => !isWord c) = true := by decide +kernel
  simpa using List.all_eq_true.mp hall c (mem_blanks h)

/-- A sign starts with a character that is neither blank nor part of a word. -/
def IsSign (sign : List Char) : Prop :=
  ∃ c rest, sign = c :: rest ∧ isBlank c = false ∧ isWord c = false

/-- A text that begins with a sign does not begin with a blank. -/
theorem IsSign.startsSolid {sign rest : List Char} (h : IsSign sign) :
    StartsSolid (sign ++ rest) := by
  obtain ⟨c, more, rfl, hblank, -⟩ := h
  intro d hd
  cases hd
  exact hblank

/-- A word ends where a sign follows, with blanks before it or without. -/
theorem IsSign.isWord_head {sign b rest : List Char} (h : IsSign sign) (hb : allBlank b = true) :
    ∀ c ∈ (b ++ (sign ++ rest)).head?, isWord c = false := by
  obtain ⟨d, more, rfl, -, hword⟩ := h
  intro c hc
  cases b with
  | nil =>
    cases hc
    exact hword
  | cons e b' =>
    cases hc
    exact isWord_of_isBlank (List.all_eq_true.mp hb _ List.mem_cons_self)

theorem allBlank_isWord_head {b : List Char} (hb : allBlank b = true) :
    ∀ c ∈ b.head?, isWord c = false := fun c hc =>
  isWord_of_isBlank (List.all_eq_true.mp hb c (List.mem_of_mem_head? hc))

/-! ## Variables and signs -/

/-- A letter or an underscore, then word characters. -/
def isVariable : List Char → Bool
  | [] => false
  | c :: rest => isNameStart c && rest.all isWord

theorem isBlank_of_isNameStart {c : Char} (h : isNameStart c = true) : isBlank c = false := by
  by_contra hb
  rw [(not_of_isBlank (by simpa using hb)).2.1] at h
  cases h

/-- A text that begins with a variable does not begin with a blank. -/
theorem startsSolid_of_isVariable {name rest : List Char} (h : isVariable name = true) :
    StartsSolid (name ++ rest) := by
  cases name with
  | nil => cases h
  | cons c more =>
    rw [isVariable, Bool.and_eq_true] at h
    intro d hd
    cases hd
    exact isBlank_of_isNameStart h.1

/-- A variable is taken from the front of a text if no word character follows it. -/
theorem takeVariable_eq_some_iff {s name rest : List Char} :
    takeVariable s = some (name, rest) ↔
      isVariable name = true ∧ (∀ c ∈ rest.head?, isWord c = false) ∧ s = name ++ rest := by
  constructor
  · intro h
    unfold takeVariable at h
    split at h
    next => cases h
    next c more =>
      split at h
      next hc =>
        cases h
        refine ⟨?_, fun d hd => ?_, ?_⟩
        · rw [isVariable, hc, Bool.true_and]
          exact List.all_takeWhile
        · have hnot := List.head?_dropWhile_not isWord more
          rw [hd] at hnot
          simpa using hnot
        · rw [List.cons_append, List.takeWhile_append_dropWhile]
      next => cases h
  · rintro ⟨hname, hrest, rfl⟩
    cases name with
    | nil => cases hname
    | cons c more =>
      rw [isVariable, Bool.and_eq_true] at hname
      have hall := List.all_eq_true.mp hname.2
      rw [List.cons_append, takeVariable, if_pos hname.1,
        takeWhile_append_of_head hall hrest, List.dropWhile_append_of_pos hall,
        dropWhile_eq_self hrest]

/-- A variable after blanks. -/
theorem takeVariable_stripStart_iff {s name rest : List Char} :
    takeVariable (stripStart s) = some (name, rest) ↔
      isVariable name = true ∧ (∀ c ∈ rest.head?, isWord c = false) ∧
        ∃ b, allBlank b = true ∧ s = b ++ (name ++ rest) := by
  rw [takeVariable_eq_some_iff]
  refine and_congr_right fun hname => and_congr_right fun _ => ⟨fun hs => ?_, ?_⟩
  · obtain ⟨b, hb, heq⟩ := exists_stripStart s
    exact ⟨b, hb, by rw [← hs]; exact heq⟩
  · rintro ⟨b, hb, rfl⟩
    exact stripStart_append hb (startsSolid_of_isVariable hname)

/-- A sign is found behind blanks and what follows it is left. -/
theorem afterSign?_eq_some_iff {sign s rest : List Char} (hsign : StartsSolid (sign ++ rest)) :
    afterSign? sign s = some rest ↔ ∃ b, allBlank b = true ∧ s = b ++ (sign ++ rest) := by
  unfold afterSign?
  constructor
  · intro h
    simp only at h
    split at h
    next hprefix =>
      cases h
      obtain ⟨tail, htail⟩ := List.isPrefixOf_iff_prefix.mp hprefix
      obtain ⟨b, hb, heq⟩ := exists_stripStart s
      refine ⟨b, hb, ?_⟩
      rw [← htail, List.drop_left, htail]
      exact heq
    next => cases h
  · rintro ⟨b, hb, rfl⟩
    have hprefix : sign.isPrefixOf (sign ++ rest) = true :=
      List.isPrefixOf_iff_prefix.mpr (List.prefix_append _ _)
    simp only [stripStart_append hb hsign, hprefix, if_true, List.drop_left]

/-! ## Steps -/

namespace LoopStep

variable {s : List Char} {w w' : Written} {down : Bool}

/-- One or more digits. -/
def IsDigits (d : List Char) : Prop := d ≠ [] ∧ d.all isDigit = true

/-- The sign of adding or of taking away. -/
def signOf (down : Bool) : Char := if down then '-' else '+'

theorem isSign_cons_signOf (down : Bool) (rest : List Char) : IsSign (signOf down :: rest) := by
  refine ⟨_, rest, rfl, ?_⟩
  cases down <;> decide

theorem isSign_equals : IsSign ['='] := ⟨'=', [], rfl, by decide, by decide⟩

theorem IsDigits.startsSolid {d rest : List Char} (h : IsDigits d) : StartsSolid (d ++ rest) := by
  obtain ⟨hne, hd⟩ := h
  cases d with
  | nil => exact absurd rfl hne
  | cons c more =>
    intro e he
    cases he
    exact isBlank_of_isDigit (List.all_eq_true.mp hd c List.mem_cons_self)

/-- An amount is digits with blanks around them. -/
theorem amount?_eq_some_iff {d : List Char} : amount? s = some d ↔ IsDigits d ∧ Spaced [d] s := by
  unfold amount?
  constructor
  · intro h
    simp only at h
    split at h
    next => cases h
    next hcond =>
      cases h
      simp only [Bool.or_eq_true, List.isEmpty_iff, Bool.not_eq_true', not_or,
        Bool.not_eq_false] at hcond
      obtain ⟨b, hb, heq⟩ := exists_stripStart s
      refine ⟨⟨hcond.1, List.all_takeWhile⟩, spaced_cons_iff.mpr ?_⟩
      refine ⟨b, _, hb, .blank hcond.2, ?_⟩
      rw [List.takeWhile_append_dropWhile]
      exact heq
  · rintro ⟨hd, hs⟩
    obtain ⟨b, rest, hb, hrest, rfl⟩ := spaced_cons_iff.mp hs
    have hblank := spaced_nil_iff.mp hrest
    have hall := List.all_eq_true.mp hd.2
    have hhead : ∀ c ∈ rest.head?, isDigit c = false := fun c hc =>
      (not_of_isBlank (List.all_eq_true.mp hblank c (List.mem_of_mem_head? hc))).1
    simp only [stripStart_append hb hd.startsSolid, takeWhile_append_of_head hall hhead,
      List.dropWhile_append_of_pos hall, dropWhile_eq_self hhead, hblank]
    simp [hd.1]

/-- A sign stands in front of a name: `++i`. -/
theorem before?_eq_some_iff {sign name : List Char} (hsign : IsSign sign) :
    before? sign s = some name ↔ isVariable name = true ∧ Spaced [sign, name] s := by
  unfold before?
  constructor
  · intro h
    obtain ⟨rest, hrest, h1⟩ := Option.bind_eq_some_iff.mp h
    obtain ⟨⟨name', tail⟩, htake, h2⟩ := Option.bind_eq_some_iff.mp h1
    obtain ⟨b, hb, rfl⟩ := (afterSign?_eq_some_iff hsign.startsSolid).mp hrest
    obtain ⟨hname, -, b', hb', rfl⟩ := takeVariable_stripStart_iff.mp htake
    simp only at h2
    split at h2
    next htail =>
      cases h2
      exact ⟨hname, .piece hb (.piece hb' (.blank htail))⟩
    next => cases h2
  · rintro ⟨hname, hs⟩
    obtain ⟨b, rest, hb, hrest, rfl⟩ := spaced_cons_iff.mp hs
    obtain ⟨b', tail, hb', htail, rfl⟩ := spaced_cons_iff.mp hrest
    have hblank := spaced_nil_iff.mp htail
    refine Option.bind_eq_some_iff.mpr
      ⟨_, (afterSign?_eq_some_iff hsign.startsSolid).mpr ⟨b, hb, rfl⟩, ?_⟩
    refine Option.bind_eq_some_iff.mpr ⟨(name, tail), takeVariable_stripStart_iff.mpr
      ⟨hname, allBlank_isWord_head hblank, b', hb', rfl⟩, ?_⟩
    simp [hblank]

/-- A sign stands behind a name: `i++`. -/
theorem after?_eq_some_iff {sign name : List Char} (hsign : IsSign sign) :
    after? sign s = some name ↔ isVariable name = true ∧ Spaced [name, sign] s := by
  unfold after?
  constructor
  · intro h
    obtain ⟨⟨name', tail⟩, htake, h1⟩ := Option.bind_eq_some_iff.mp h
    obtain ⟨rest, hrest, h2⟩ := Option.bind_eq_some_iff.mp h1
    obtain ⟨hname, -, b, hb, rfl⟩ := takeVariable_stripStart_iff.mp htake
    obtain ⟨b', hb', rfl⟩ := (afterSign?_eq_some_iff hsign.startsSolid).mp hrest
    split at h2
    next hblank =>
      cases h2
      exact ⟨hname, .piece hb (.piece hb' (.blank hblank))⟩
    next => cases h2
  · rintro ⟨hname, hs⟩
    obtain ⟨b, rest, hb, hrest, rfl⟩ := spaced_cons_iff.mp hs
    obtain ⟨b', tail, hb', htail, rfl⟩ := spaced_cons_iff.mp hrest
    refine Option.bind_eq_some_iff.mpr ⟨(name, _), takeVariable_stripStart_iff.mpr
      ⟨hname, hsign.isWord_head hb', b, hb, rfl⟩, ?_⟩
    refine Option.bind_eq_some_iff.mpr
      ⟨tail, (afterSign?_eq_some_iff hsign.startsSolid).mpr ⟨b', hb', rfl⟩, ?_⟩
    simp [spaced_nil_iff.mp htail]

/-- An update is a name, a sign and an amount: `i += 2`. -/
theorem update?_eq_some_iff {sign : List Char} (hsign : IsSign sign) :
    update? sign down s = some w ↔ isVariable w.name = true ∧ IsDigits w.digits ∧ w.down = down ∧
      Spaced [w.name, sign, w.digits] s := by
  unfold update?
  constructor
  · intro h
    obtain ⟨⟨name, tail⟩, htake, h1⟩ := Option.bind_eq_some_iff.mp h
    obtain ⟨rest, hrest, h2⟩ := Option.bind_eq_some_iff.mp h1
    obtain ⟨d, hd, h3⟩ := Option.bind_eq_some_iff.mp h2
    cases h3
    obtain ⟨hname, -, b, hb, rfl⟩ := takeVariable_stripStart_iff.mp htake
    obtain ⟨b', hb', rfl⟩ := (afterSign?_eq_some_iff hsign.startsSolid).mp hrest
    obtain ⟨hdigits, hspaced⟩ := amount?_eq_some_iff.mp hd
    exact ⟨hname, hdigits, rfl, .piece hb (.piece hb' hspaced)⟩
  · rintro ⟨hname, hdigits, rfl, hs⟩
    obtain ⟨b, rest, hb, hrest, rfl⟩ := spaced_cons_iff.mp hs
    obtain ⟨b', tail, hb', htail, rfl⟩ := spaced_cons_iff.mp hrest
    refine Option.bind_eq_some_iff.mpr ⟨(w.name, _), takeVariable_stripStart_iff.mpr
      ⟨hname, hsign.isWord_head hb', b, hb, rfl⟩, ?_⟩
    refine Option.bind_eq_some_iff.mpr
      ⟨tail, (afterSign?_eq_some_iff hsign.startsSolid).mpr ⟨b', hb', rfl⟩, ?_⟩
    exact Option.bind_eq_some_iff.mpr ⟨w.digits, amount?_eq_some_iff.mpr ⟨hdigits, htail⟩, rfl⟩

/-- An addend is the name again, a sign and an amount: `i + 2`. -/
theorem addend?_eq_some_iff {name : List Char} (hname : isVariable name = true) :
    addend? name s = some w ↔
      w.name = name ∧ IsDigits w.digits ∧ Spaced [name, [signOf w.down], w.digits] s := by
  unfold addend?
  constructor
  · intro h
    obtain ⟨rest, hrest, h1⟩ := Option.bind_eq_some_iff.mp h
    obtain ⟨b, hb, rfl⟩ :=
      (afterSign?_eq_some_iff (startsSolid_of_isVariable hname)).mp hrest
    obtain ⟨b', hb', heq⟩ := exists_stripStart rest
    split at h1
    next more hmore =>
      obtain ⟨d, hd, h2⟩ := Option.bind_eq_some_iff.mp h1
      cases h2
      obtain ⟨hdigits, hspaced⟩ := amount?_eq_some_iff.mp hd
      rw [heq, hmore]
      exact ⟨rfl, hdigits, .piece hb (.piece (p := ['+']) hb' hspaced)⟩
    next more hmore =>
      obtain ⟨d, hd, h2⟩ := Option.bind_eq_some_iff.mp h1
      cases h2
      obtain ⟨hdigits, hspaced⟩ := amount?_eq_some_iff.mp hd
      rw [heq, hmore]
      exact ⟨rfl, hdigits, .piece hb (.piece (p := ['-']) hb' hspaced)⟩
    next => cases h1
  · rintro ⟨rfl, hdigits, hs⟩
    obtain ⟨b, rest, hb, hrest, rfl⟩ := spaced_cons_iff.mp hs
    obtain ⟨b', tail, hb', htail, rfl⟩ := spaced_cons_iff.mp hrest
    have hamount := amount?_eq_some_iff.mpr ⟨hdigits, htail⟩
    refine Option.bind_eq_some_iff.mpr
      ⟨_, (afterSign?_eq_some_iff (startsSolid_of_isVariable hname)).mpr ⟨b, hb, rfl⟩, ?_⟩
    rw [stripStart_append hb' (isSign_cons_signOf w.down []).startsSolid]
    obtain ⟨name, down, digits⟩ := w
    cases down
    · exact Option.bind_eq_some_iff.mpr ⟨digits, hamount, rfl⟩
    · exact Option.bind_eq_some_iff.mpr ⟨digits, hamount, rfl⟩

/-- A reassignment is `i = i + 2`, with one name on both sides. -/
theorem reassign?_eq_some_iff :
    reassign? s = some w ↔ isVariable w.name = true ∧ IsDigits w.digits ∧
      Spaced [w.name, ['='], w.name, [signOf w.down], w.digits] s := by
  unfold reassign?
  constructor
  · intro h
    obtain ⟨⟨name, tail⟩, htake, h1⟩ := Option.bind_eq_some_iff.mp h
    obtain ⟨rest, hrest, h2⟩ := Option.bind_eq_some_iff.mp h1
    obtain ⟨hname, -, b, hb, rfl⟩ := takeVariable_stripStart_iff.mp htake
    obtain ⟨b', hb', rfl⟩ := (afterSign?_eq_some_iff isSign_equals.startsSolid).mp hrest
    obtain ⟨rfl, hdigits, hspaced⟩ := (addend?_eq_some_iff hname).mp h2
    exact ⟨hname, hdigits, .piece hb (.piece hb' hspaced)⟩
  · rintro ⟨hname, hdigits, hs⟩
    obtain ⟨b, rest, hb, hrest, rfl⟩ := spaced_cons_iff.mp hs
    obtain ⟨b', tail, hb', htail, rfl⟩ := spaced_cons_iff.mp hrest
    refine Option.bind_eq_some_iff.mpr ⟨(w.name, _), takeVariable_stripStart_iff.mpr
      ⟨hname, isSign_equals.isWord_head hb', b, hb, rfl⟩, ?_⟩
    refine Option.bind_eq_some_iff.mpr
      ⟨tail, (afterSign?_eq_some_iff isSign_equals.startsSolid).mpr ⟨b', hb', rfl⟩, ?_⟩
    exact (addend?_eq_some_iff hname).mpr ⟨rfl, hdigits, htail⟩

/-- The spellings of a step: `++i` and `--i`, `i++` and `i--`, `i += k` and `i -= k`, `i = i + k`
and `i = i - k`. -/
inductive Spells : Written → List Char → Prop where
  | before {name s : List Char} (down : Bool) : isVariable name = true →
      Spaced [[signOf down, signOf down], name] s → Spells ⟨name, down, ['1']⟩ s
  | after {name s : List Char} (down : Bool) : isVariable name = true →
      Spaced [name, [signOf down, signOf down]] s → Spells ⟨name, down, ['1']⟩ s
  | update {name d s : List Char} (down : Bool) : isVariable name = true → IsDigits d →
      Spaced [name, [signOf down, '='], d] s → Spells ⟨name, down, d⟩ s
  | reassign {name d s : List Char} (down : Bool) : isVariable name = true → IsDigits d →
      Spaced [name, ['='], name, [signOf down], d] s → Spells ⟨name, down, d⟩ s

theorem eq_some_of_orElse {α : Type} {o o' : Option α} {a : α} (h : (o <|> o') = some a) :
    o = some a ∨ o' = some a := by
  cases o with
  | none => exact Or.inr h
  | some x => exact Or.inl h

/-- A step that is read is one of the spellings. -/
theorem spells_of_read? (h : read? s = some w) : Spells w s := by
  have hbefore : ∀ down, (before? [signOf down, signOf down] s).map (⟨·, down, ['1']⟩) = some w →
      Spells w s := by
    intro down h
    obtain ⟨name, hread, rfl⟩ := Option.map_eq_some_iff.mp h
    obtain ⟨hname, hs⟩ := (before?_eq_some_iff (isSign_cons_signOf down _)).mp hread
    exact .before down hname hs
  have hafter : ∀ down, (after? [signOf down, signOf down] s).map (⟨·, down, ['1']⟩) = some w →
      Spells w s := by
    intro down h
    obtain ⟨name, hread, rfl⟩ := Option.map_eq_some_iff.mp h
    obtain ⟨hname, hs⟩ := (after?_eq_some_iff (isSign_cons_signOf down _)).mp hread
    exact .after down hname hs
  have hupdate : ∀ down, update? [signOf down, '='] down s = some w → Spells w s := by
    intro down h
    obtain ⟨hname, hdigits, rfl, hs⟩ := (update?_eq_some_iff (isSign_cons_signOf down _)).mp h
    exact .update w.down hname hdigits hs
  unfold read? at h
  rcases eq_some_of_orElse h with h | h
  · exact hbefore false h
  rcases eq_some_of_orElse h with h | h
  · exact hafter false h
  rcases eq_some_of_orElse h with h | h
  · exact hbefore true h
  rcases eq_some_of_orElse h with h | h
  · exact hafter true h
  rcases eq_some_of_orElse h with h | h
  · exact hupdate false h
  rcases eq_some_of_orElse h with h | h
  · exact hupdate true h
  · obtain ⟨hname, hdigits, hs⟩ := reassign?_eq_some_iff.mp h
    exact .reassign w.down hname hdigits hs

/-- Does the text start with a variable, and what stands after it, or at the start if there is
none? -/
def opening (s : List Char) : Bool × List Char :=
  match takeVariable (stripStart s) with
  | some (_, rest) => (true, stripStart rest)
  | none => (false, stripStart s)

/-- A text of a name and a sign opens with a word, and the sign is next. -/
theorem opening_of_spaced {name sign : List Char} {ps : List (List Char)}
    (hname : isVariable name = true) (hsign : IsSign sign) (h : Spaced (name :: sign :: ps) s) :
    ∃ rest, opening s = (true, sign ++ rest) := by
  obtain ⟨b, rest, hb, hrest, rfl⟩ := spaced_cons_iff.mp h
  obtain ⟨b', tail, hb', -, rfl⟩ := spaced_cons_iff.mp hrest
  have htake : takeVariable (stripStart (b ++ (name ++ (b' ++ (sign ++ tail))))) =
      some (name, b' ++ (sign ++ tail)) :=
    takeVariable_stripStart_iff.mpr ⟨hname, hsign.isWord_head hb', b, hb, rfl⟩
  refine ⟨tail, ?_⟩
  rw [opening, htake]
  exact congrArg (Prod.mk true) (stripStart_append hb' hsign.startsSolid)

/-- A text that begins with a sign opens with that sign. -/
theorem opening_of_sign {sign : List Char} {ps : List (List Char)}
    (h : Spaced ((signOf down :: sign) :: ps) s) :
    ∃ rest, opening s = (false, signOf down :: sign ++ rest) := by
  obtain ⟨b, rest, hb, -, rfl⟩ := spaced_cons_iff.mp h
  have hstrip : stripStart (b ++ (signOf down :: sign ++ rest)) = signOf down :: sign ++ rest :=
    stripStart_append hb (isSign_cons_signOf down sign).startsSolid
  refine ⟨rest, ?_⟩
  rw [opening, hstrip]
  cases down <;> rfl

/-- The forms of a step, apart from what is written in them. -/
inductive Form where
  | before (down : Bool) | after (down : Bool) | update (down : Bool) | reassign
deriving DecidableEq

/-- Read a step of this form. -/
def Form.read? (s : List Char) : Form → Option Written
  | .before down => (before? [signOf down, signOf down] s).map (⟨·, down, ['1']⟩)
  | .after down => (after? [signOf down, signOf down] s).map (⟨·, down, ['1']⟩)
  | .update down => update? [signOf down, '='] down s
  | .reassign => reassign? s

/-- How a step of this form starts: whether with the variable, and with which sign. -/
def Form.mark : Form → Bool × List Char
  | .before down => (false, [signOf down, signOf down])
  | .after down => (true, [signOf down, signOf down])
  | .update down => (true, [signOf down, '='])
  | .reassign => (true, ['='])

/-- No form starts like another one. -/
theorem Form.eq_of_mark {form form' : Form} {rest rest' : List Char}
    (h : (form.mark.1, form.mark.2 ++ rest) = (form'.mark.1, form'.mark.2 ++ rest')) :
    form = form' := by
  rcases form with down | down | down | _ <;> rcases form' with down' | down' | down' | _ <;>
    (try cases down) <;> (try cases down') <;> first | rfl | simp [mark, signOf] at h

/-- A spelled step is read by one of the forms, and the opening shows which. -/
theorem Spells.exists_form (h : Spells w s) :
    ∃ form : Form, form.read? s = some w ∧
      ∃ rest, opening s = (form.mark.1, form.mark.2 ++ rest) := by
  cases h with
  | before down hname hs =>
    refine ⟨.before down, ?_, opening_of_sign hs⟩
    exact Option.map_eq_some_iff.mpr
      ⟨_, (before?_eq_some_iff (isSign_cons_signOf down _)).mpr ⟨hname, hs⟩, rfl⟩
  | after down hname hs =>
    refine ⟨.after down, ?_, opening_of_spaced hname (isSign_cons_signOf down _) hs⟩
    exact Option.map_eq_some_iff.mpr
      ⟨_, (after?_eq_some_iff (isSign_cons_signOf down _)).mpr ⟨hname, hs⟩, rfl⟩
  | @update name d _ down hname hd hs =>
    refine ⟨.update down, ?_, opening_of_spaced hname (isSign_cons_signOf down _) hs⟩
    exact (update?_eq_some_iff (w := ⟨name, down, d⟩) (isSign_cons_signOf down _)).mpr
      ⟨hname, hd, rfl, hs⟩
  | @reassign name d _ down hname hd hs =>
    refine ⟨.reassign, ?_, opening_of_spaced hname isSign_equals hs⟩
    exact reassign?_eq_some_iff (w := ⟨name, down, d⟩) |>.mpr ⟨hname, hd, hs⟩

/-- **A step says one thing.** Its form is known by how the text starts, and a form is read in one
way. -/
theorem Spells.unique (h : Spells w s) (h' : Spells w' s) : w = w' := by
  obtain ⟨form, hread, rest, hopening⟩ := h.exists_form
  obtain ⟨form', hread', rest', hopening'⟩ := h'.exists_form
  obtain rfl := Form.eq_of_mark (hopening.symm.trans hopening')
  exact Option.some.inj (hread.symm.trans hread')

/-- A step that has one of the forms is read in some form. -/
theorem Form.read?_ne_none {form : Form} (h : form.read? s = some w) : LoopStep.read? s ≠ none := by
  intro hnone
  simp only [LoopStep.read?, Option.orElse_eq_orElse, Option.orElse_eq_or, Option.or_eq_none_iff]
    at hnone
  obtain ⟨hbefore, hafter, hbefore', hafter', hupdate, hupdate', hreassign⟩ := hnone
  cases form with
  | before down =>
    cases down
    · cases hbefore.symm.trans h
    · cases hbefore'.symm.trans h
  | after down =>
    cases down
    · cases hafter.symm.trans h
    · cases hafter'.symm.trans h
  | update down =>
    cases down
    · cases hupdate.symm.trans h
    · cases hupdate'.symm.trans h
  | reassign => cases hreassign.symm.trans h

/-- **The steps that are read are the ones that are spelled.** -/
theorem read?_eq_some_iff : read? s = some w ↔ Spells w s := by
  refine ⟨spells_of_read?, fun h => ?_⟩
  obtain ⟨form, hform, -⟩ := h.exists_form
  obtain ⟨w', hread⟩ := Option.ne_none_iff_exists'.mp (form.read?_ne_none hform)
  rw [hread, (spells_of_read? hread).unique h]

end LoopStep

/-! ## Values and bounds -/

/-- A text that can stand at the end of an initialiser or a condition: on one line, without blanks
at its ends, and not to be taken for the rest of a sign. -/
structure IsTail (p : List Char) : Prop where
  ne_nil : p ≠ []
  stripped : Stripped p
  line : '\n' ∉ p
  equals : ∀ c ∈ p.head?, c ≠ '='

/-- A text that can stand at the end of a header is found there, without the blanks around it. -/
theorem tailText?_of_spaced {p s : List Char} (hp : IsTail p) (h : Spaced [p] s) :
    tailText? s = some p := by
  obtain ⟨b, rest, hb, hrest, rfl⟩ := spaced_cons_iff.mp h
  have hblank := spaced_nil_iff.mp hrest
  have hstart : StartsSolid (p ++ rest) := by
    intro c hc
    obtain ⟨d, more, rfl⟩ := List.exists_cons_of_ne_nil hp.ne_nil
    cases hc
    exact hp.stripped.head c rfl
  have hlast : p.reverse.dropWhile isBlank = p.reverse :=
    dropWhile_eq_self fun c hc => hp.stripped.last c (by rwa [List.head?_reverse] at hc)
  have hstrip : strip (b ++ (p ++ rest)) = p := by
    rw [strip, stripStart_append hb hstart, stripEnd, List.reverse_append,
      List.dropWhile_append_of_pos, hlast, List.reverse_reverse]
    exact fun c hc => List.all_eq_true.mp hblank c (List.mem_reverse.mp hc)
  unfold tailText?
  rw [hstrip]
  split
  next => exact absurd rfl hp.ne_nil
  next => rw [if_neg (by simpa using hp.line)]

/-- What is found as a tail stands between blanks and holds no line break. -/
theorem spaced_of_tailText? {p s : List Char} (hp : ∃ c ∈ p, isBlank c = false)
    (h : tailText? s = some p) : Spaced [p] s ∧ '\n' ∉ p := by
  obtain ⟨before, after, hs, hbefore, hafter⟩ := Token.exists_strip_append s
  unfold tailText? at h
  split at h
  next hnil =>
    -- in a text of blanks there is nothing else to be found
    obtain ⟨c, hc, rfl⟩ := Option.map_eq_some_iff.mp h
    obtain ⟨d, hd, hsolid⟩ := hp
    rw [List.mem_singleton.mp hd] at hsolid
    have hmem : c ∈ s := (List.mem_filter.mp (List.mem_of_mem_getLast? hc)).1
    rw [hnil, List.append_nil] at hs
    rw [hs] at hmem
    rw [List.all_eq_true.mp (allBlank_append hbefore hafter) c hmem] at hsolid
    cases hsolid
  next =>
    split at h
    next => cases h
    next hline =>
      cases h
      refine ⟨spaced_cons_iff.mpr ⟨before, after, hbefore, .blank hafter, ?_⟩, by simpa using hline⟩
      rw [← List.append_assoc]
      exact hs

/-- A whole value has a character that is not blank. -/
theorem IsWhole.exists_solid {s : List Char} (h : IsWhole s) : ∃ c ∈ s, isBlank c = false := by
  rcases h with ⟨hne, hd⟩ | ⟨b, d, rfl, -, -, -⟩
  · obtain ⟨c, rest, rfl⟩ := List.exists_cons_of_ne_nil hne
    exact ⟨c, List.mem_cons_self, isBlank_of_isDigit (List.all_eq_true.mp hd c List.mem_cons_self)⟩
  · exact ⟨'-', List.mem_cons_self, by decide⟩

theorem isBlank_of_isName {s : List Char} (h : isName s = true) {c : Char} (hc : c ∈ s) :
    isBlank c = false := by
  by_contra hb
  have hnot := (Token.not_inside_of_isBlank (by simpa using hb)).1
  rw [isNameChar_of_mem h hc] at hnot
  cases hnot

/-- A whole value without a line break can stand at the end of a header. -/
theorem IsWhole.isTail {s : List Char} (h : IsWhole s) (hline : '\n' ∉ s) : IsTail s := by
  rcases h with ⟨hne, hd⟩ | ⟨b, d, rfl, -, hne, hd⟩
  · have hall := List.all_eq_true.mp hd
    refine ⟨hne, ⟨fun c hc => ?_, fun c hc => ?_⟩, hline, fun c hc => ?_⟩
    · exact isBlank_of_isDigit (hall c (List.mem_of_mem_head? hc))
    · exact isBlank_of_isDigit (hall c (List.mem_of_mem_getLast? hc))
    · rintro rfl
      exact absurd (hall _ (List.mem_of_mem_head? hc)) (by decide)
  · refine ⟨List.cons_ne_nil _ _, ⟨fun c hc => ?_, fun c hc => ?_⟩, hline, fun c hc => ?_⟩
    · cases hc
      decide
    · obtain ⟨e, he⟩ := Option.isSome_iff_exists.mp (List.getLast?_isSome.mpr hne)
      have hlast : ('-' :: (b ++ d)).getLast? = some e := by
        rw [← List.cons_append, List.getLast?_append, he]
        rfl
      cases hlast.symm.trans hc
      exact isBlank_of_isDigit (List.all_eq_true.mp hd _ (List.mem_of_mem_getLast? he))
    · cases hc
      decide

/-- A text without blanks and equals signs is a tail. -/
theorem isTail_of_notMem {s : List Char} (hne : s ≠ []) (hblank : ∀ c ∈ s, isBlank c = false)
    (hequals : '=' ∉ s) : IsTail s where
  ne_nil := hne
  stripped := ⟨fun c hc => hblank c (List.mem_of_mem_head? hc),
    fun c hc => hblank c (List.mem_of_mem_getLast? hc)⟩
  line hmem := absurd (hblank _ hmem) (by decide)
  equals := by
    rintro c hc rfl
    exact hequals (List.mem_of_mem_head? hc)

/-- A name can stand at the end of a header. -/
theorem isTail_of_isName {s : List Char} (h : isName s = true) : IsTail s := by
  refine isTail_of_notMem ?_ (fun c hc => isBlank_of_isName h hc) fun hmem => ?_
  · rintro rfl
    cases h
  · exact absurd (isNameChar_of_mem h hmem) (by decide)

/-- Digits can stand at the end of a header. -/
theorem isTail_of_digits {s : List Char} (hne : s ≠ []) (h : s.all isDigit = true) : IsTail s := by
  have hdigit := List.all_eq_true.mp h
  refine isTail_of_notMem hne (fun c hc => isBlank_of_isDigit (hdigit c hc)) fun hmem => ?_
  exact absurd (hdigit _ hmem) (by decide)

/-! ## Conditions -/

/-- The sign of a comparison. -/
def Comparison.sign : Comparison → List Char
  | .less => ['<']
  | .lessEqual => ['<', '=']
  | .greater => ['>']
  | .greaterEqual => ['>', '=']

theorem Comparison.isSign_sign (c : Comparison) : IsSign c.sign := by
  cases c <;> exact ⟨_, _, rfl, by decide, by decide⟩

/-- A comparison that is taken stood at the front of the text. -/
theorem Comparison.eq_sign_append {s rest : List Char} {c : Comparison}
    (h : take s = some (c, rest)) : s = c.sign ++ rest := by
  unfold take at h
  split at h <;> cases h <;> rfl

/-- A sign is not taken for the start of a longer one, if no equals sign follows. -/
theorem Comparison.take_sign_append (c : Comparison) {rest : List Char}
    (h : ∀ d ∈ rest.head?, d ≠ '=') : take (c.sign ++ rest) = some (c, rest) := by
  cases c with
  | lessEqual | greaterEqual => rfl
  | less | greater =>
    cases rest with
    | nil => rfl
    | cons d more =>
      have hd : d ≠ '=' := h d rfl
      unfold take sign
      split <;> simp_all

/-- A condition that is read has the form `name sign bound` with any blanks between. -/
theorem LoopCondition.spaced_of_parse? {s : String} {c : LoopCondition} (h : parse? s = some c)
    (hbound : ∃ d ∈ c.bound.toList, isBlank d = false) :
    isVariable c.name.toList = true ∧ '\n' ∉ c.bound.toList ∧
      Spaced [c.name.toList, c.comparison.sign, c.bound.toList] s.toList := by
  obtain ⟨⟨name, rest⟩, hname, h1⟩ := Option.bind_eq_some_iff.mp h
  obtain ⟨⟨comparison, tail⟩, htake, h2⟩ := Option.bind_eq_some_iff.mp h1
  obtain ⟨bound, hbound', h3⟩ := Option.bind_eq_some_iff.mp h2
  cases h3
  simp only [String.toList_ofList] at hbound ⊢
  obtain ⟨hvariable, -, b, hb, hs⟩ := takeVariable_stripStart_iff.mp hname
  obtain ⟨b', hb', hrest⟩ := exists_stripStart rest
  obtain ⟨hspaced, hline⟩ := spaced_of_tailText? hbound hbound'
  refine ⟨hvariable, hline, ?_⟩
  rw [hs, hrest, Comparison.eq_sign_append htake]
  exact .piece hb (.piece hb' hspaced)

/-- **A condition says one thing.** -/
theorem LoopCondition.parse?_of_spaced {s : String} {c : LoopCondition}
    (hname : isVariable c.name.toList = true) (hbound : IsTail c.bound.toList)
    (h : Spaced [c.name.toList, c.comparison.sign, c.bound.toList] s.toList) :
    parse? s = some c := by
  have hsign := c.comparison.isSign_sign
  obtain ⟨b, rest, hb, hrest, hs⟩ := spaced_cons_iff.mp h
  obtain ⟨b', tail, hb', htail, rfl⟩ := spaced_cons_iff.mp hrest
  have hequals : ∀ d ∈ tail.head?, d ≠ '=' := by
    obtain ⟨b'', end', hb'', -, rfl⟩ := spaced_cons_iff.mp htail
    intro d hd
    cases b'' with
    | nil =>
      obtain ⟨e, more, he⟩ := List.exists_cons_of_ne_nil hbound.ne_nil
      rw [List.nil_append, he] at hd
      cases hd
      exact hbound.equals d (by rw [he]; rfl)
    | cons e more =>
      cases hd
      rintro rfl
      exact absurd (List.all_eq_true.mp hb'' _ List.mem_cons_self) (by decide)
  unfold parse?
  refine Option.bind_eq_some_iff.mpr ⟨(c.name.toList, _), takeVariable_stripStart_iff.mpr
    ⟨hname, hsign.isWord_head hb', b, hb, hs⟩, ?_⟩
  refine Option.bind_eq_some_iff.mpr ⟨(c.comparison, tail), ?_, ?_⟩
  · rw [stripStart_append hb' hsign.startsSolid]
    exact c.comparison.take_sign_append hequals
  · refine Option.bind_eq_some_iff.mpr ⟨_, tailText?_of_spaced hbound htail, ?_⟩
    simp only [String.ofList_toList]
    rfl

/-! ## Initialisers -/

namespace LoopInit

/-- A type name: a letter or an underscore, then word characters, colons and angle brackets. The
word `return` is none. -/
def IsType (type : List Char) : Prop :=
  ∃ c rest, type = c :: rest ∧ isNameStart c = true ∧ rest.all isTypeChar = true ∧
    type ≠ "return".toList

/-- An assignment to a variable, after a type name and a blank or without them. -/
inductive Spelled (name value : List Char) : List Char → Prop where
  | plain {s : List Char} : Spaced [name, ['='], value] s → Spelled name value s
  | typed {b type s : List Char} {c : Char} : allBlank b = true → IsType type →
      isBlank c = true → Spaced [name, ['='], value] s →
      Spelled name value (b ++ (type ++ c :: s))

/-- An assignment that is read has the form `name = value` with any blanks between. -/
theorem spaced_of_assignment? {s name value : List Char}
    (hvalue : ∃ c ∈ value, isBlank c = false)
    (h : assignment? (stripStart s) = some (name, value)) :
    isVariable name = true ∧ '\n' ∉ value ∧ Spaced [name, ['='], value] s := by
  obtain ⟨⟨name', rest⟩, hname, h1⟩ := Option.bind_eq_some_iff.mp h
  obtain ⟨tail, htail, h2⟩ := Option.bind_eq_some_iff.mp h1
  obtain ⟨value', hvalue', h3⟩ := Option.bind_eq_some_iff.mp h2
  cases h3
  obtain ⟨hvariable, -, b, hb, rfl⟩ := takeVariable_stripStart_iff.mp hname
  obtain ⟨b', hb', rfl⟩ := (afterSign?_eq_some_iff LoopStep.isSign_equals.startsSolid).mp htail
  obtain ⟨hspaced, hline⟩ := spaced_of_tailText? hvalue hvalue'
  exact ⟨hvariable, hline, .piece hb (.piece hb' hspaced)⟩

/-- An assignment of that form is read as its name and value. -/
theorem assignment?_of_spaced {s name value : List Char} (hname : isVariable name = true)
    (hvalue : IsTail value) (h : Spaced [name, ['='], value] s) :
    assignment? (stripStart s) = some (name, value) := by
  obtain ⟨b, rest, hb, hrest, rfl⟩ := spaced_cons_iff.mp h
  obtain ⟨b', tail, hb', htail, rfl⟩ := spaced_cons_iff.mp hrest
  have hequals := LoopStep.isSign_equals
  unfold assignment?
  refine Option.bind_eq_some_iff.mpr ⟨(name, _), takeVariable_stripStart_iff.mpr
    ⟨hname, hequals.isWord_head hb', b, hb, rfl⟩, ?_⟩
  refine Option.bind_eq_some_iff.mpr
    ⟨tail, (afterSign?_eq_some_iff hequals.startsSolid).mpr ⟨b', hb', rfl⟩, ?_⟩
  exact Option.bind_eq_some_iff.mpr ⟨value, tailText?_of_spaced hvalue htail, rfl⟩

theorem isTypeChar_of_isBlank {c : Char} (h : isBlank c = true) : isTypeChar c = false := by
  have hall : (blanks.all fun c => !isTypeChar c) = true := by decide +kernel
  simpa using List.all_eq_true.mp hall c (mem_blanks h)

/-- A type in front of a blank is taken as a whole. -/
theorem takeType_append {type s : List Char} {c : Char} (htype : IsType type)
    (hc : isBlank c = true) : takeType (type ++ c :: s) = some (type, stripStart s) := by
  obtain ⟨t, ts, rfl, ht, hts, -⟩ := htype
  have hall := List.all_eq_true.mp hts
  have hhead : ∀ d ∈ (c :: s).head?, isTypeChar d = false := by
    intro d hd
    cases hd
    exact isTypeChar_of_isBlank hc
  rw [List.cons_append, takeType, List.dropWhile_append_of_pos hall, dropWhile_eq_self hhead,
    takeWhile_append_of_head hall hhead]
  simp [ht, hc]

/-- A type that is taken begins with a letter or underscore and ends at a blank. -/
theorem eq_append_of_takeType {s type rest : List Char} (h : takeType s = some (type, rest)) :
    ∃ c more, isBlank c = true ∧ rest = stripStart more ∧ s = type ++ c :: more ∧
      ∃ t ts, type = t :: ts ∧ isNameStart t = true ∧ ts.all isTypeChar = true := by
  unfold takeType at h
  split at h
  next => cases h
  next t ts =>
    have hsplit := List.takeWhile_append_dropWhile (p := isTypeChar) (l := ts)
    split at h
    next => cases h
    next d more hdrop =>
      split at h
      next htest =>
        cases h
        rw [Bool.and_eq_true] at htest
        refine ⟨d, more, htest.2, rfl, ?_, t, _, rfl, htest.1, List.all_takeWhile⟩
        rw [List.cons_append, ← hdrop, hsplit]
      next => cases h

/-- An initialiser that is read is an assignment, with a type name or without one. -/
theorem spelled_of_parse? {s : String} {i : LoopInit} (h : parse? s = some i)
    (hvalue : ∃ c ∈ i.value.toList, isBlank c = false) :
    isVariable i.name.toList = true ∧ '\n' ∉ i.value.toList ∧
      Spelled i.name.toList i.value.toList s.toList := by
  obtain ⟨b, hb, hs⟩ := exists_stripStart s.toList
  unfold parse? at h
  simp only at h
  split at h
  next type name value htyped =>
    cases h
    simp only [String.toList_ofList] at hvalue ⊢
    obtain ⟨⟨type', rest⟩, htype, h1⟩ := Option.bind_eq_some_iff.mp htyped
    obtain ⟨⟨name', value'⟩, hassign, h2⟩ := Option.bind_eq_some_iff.mp h1
    simp only at h2
    split at h2
    next => cases h2
    next hreturn =>
      cases h2
      obtain ⟨c, more, hc, rfl, htext, t, ts, rfl, ht, hts⟩ := eq_append_of_takeType htype
      obtain ⟨hname, hline, hspaced⟩ := spaced_of_assignment? hvalue hassign
      refine ⟨hname, hline, ?_⟩
      rw [hs, htext]
      exact .typed hb ⟨t, ts, rfl, ht, hts, hreturn⟩ hc hspaced
  next =>
    obtain ⟨⟨name, value⟩, hassign, rfl⟩ := Option.map_eq_some_iff.mp h
    simp only [String.toList_ofList] at hvalue ⊢
    obtain ⟨hname, hline, hspaced⟩ := spaced_of_assignment? hvalue hassign
    exact ⟨hname, hline, .plain hspaced⟩

/-- What starts with a variable and an equals sign has no type name. -/
theorem typed?_of_spaced {s name : List Char} {ps : List (List Char)}
    (hname : isVariable name = true) (h : Spaced (name :: ['='] :: ps) s) :
    typed? (stripStart s) = none := by
  obtain ⟨b, rest, hb, hrest, rfl⟩ := spaced_cons_iff.mp h
  obtain ⟨b', tail, hb', -, rfl⟩ := spaced_cons_iff.mp hrest
  rw [stripStart_append hb (startsSolid_of_isVariable hname)]
  by_contra hsome
  obtain ⟨r, hr⟩ := Option.ne_none_iff_exists'.mp hsome
  obtain ⟨⟨type, after⟩, htype, h1⟩ := Option.bind_eq_some_iff.mp hr
  obtain ⟨⟨name', value⟩, hassign, -⟩ := Option.bind_eq_some_iff.mp h1
  obtain ⟨⟨name'', tail'⟩, hvariable, -⟩ := Option.bind_eq_some_iff.mp hassign
  obtain ⟨c, more, hc, rfl, htext, t, ts, rfl, ht, hts⟩ := eq_append_of_takeType htype
  -- both the type and the variable go up to the first character that is in neither of them
  obtain ⟨n, ns, rfl⟩ : ∃ n ns, name = n :: ns := by
    cases name with
    | nil => cases hname
    | cons n ns => exact ⟨n, ns, rfl⟩
  rw [isVariable, Bool.and_eq_true] at hname
  have hword : ∀ d ∈ ns, isTypeChar d = true := by
    intro d hd
    rw [isTypeChar, List.all_eq_true.mp hname.2 d hd]
    rfl
  have hends : ∀ d ∈ (b' ++ '=' :: tail).head?, isTypeChar d = false := by
    intro d hd
    cases b' with
    | nil =>
      cases hd
      decide
    | cons e more' =>
      cases hd
      exact isTypeChar_of_isBlank (List.all_eq_true.mp hb' _ List.mem_cons_self)
  have hends' : ∀ d ∈ (c :: more).head?, isTypeChar d = false := by
    intro d hd
    cases hd
    exact isTypeChar_of_isBlank hc
  have htail : ns ++ (b' ++ '=' :: tail) = ts ++ c :: more := (List.cons.inj htext).2
  have hdrop := congrArg (List.dropWhile isTypeChar) htail
  rw [List.dropWhile_append_of_pos hword, dropWhile_eq_self hends,
    List.dropWhile_append_of_pos (List.all_eq_true.mp hts), dropWhile_eq_self hends'] at hdrop
  have hstrip : stripStart more = '=' :: tail := by
    cases b' with
    | nil =>
      obtain ⟨rfl, -⟩ := List.cons.inj hdrop
      exact absurd hc (by decide)
    | cons e more' =>
      obtain ⟨-, rfl⟩ := List.cons.inj hdrop
      rw [allBlank, List.all_cons, Bool.and_eq_true] at hb'
      exact stripStart_append hb'.2 LoopStep.isSign_equals.startsSolid
  rw [hstrip] at hvariable
  cases hvariable

/-- **An initialiser says one thing.** -/
theorem parse?_of_spelled {s name value : String} (hname : isVariable name.toList = true)
    (hvalue : IsTail value.toList) (h : Spelled name.toList value.toList s.toList) :
    ∃ declared, parse? s = some ⟨declared, name, value⟩ := by
  unfold parse?
  generalize s.toList = text at h ⊢
  cases h with
  | plain hspaced =>
    refine ⟨none, ?_⟩
    simp only [typed?_of_spaced hname hspaced, assignment?_of_spaced hname hvalue hspaced,
      Option.map_some, String.ofList_toList]
  | @typed b type rest c hb htype hc hspaced =>
    have hsolid : StartsSolid (type ++ c :: rest) := by
      obtain ⟨t, ts, rfl, ht, -⟩ := htype
      intro d hd
      cases hd
      exact isBlank_of_isNameStart ht
    have htyped : typed? (type ++ c :: rest) = some (type, name.toList, value.toList) := by
      refine Option.bind_eq_some_iff.mpr ⟨_, takeType_append htype hc, ?_⟩
      refine Option.bind_eq_some_iff.mpr ⟨_, assignment?_of_spaced hname hvalue hspaced, ?_⟩
      obtain ⟨-, -, -, -, -, hreturn⟩ := htype
      exact if_neg hreturn
    refine ⟨some (String.ofList type), ?_⟩
    simp only [stripStart_append hb hsolid, htyped, String.ofList_toList]

end LoopInit

end Blockflow.Expression
