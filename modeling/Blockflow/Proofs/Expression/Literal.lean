import Blockflow.Expression.Typing
import Blockflow.Numeral
import Mathlib.Algebra.Group.Nat.Defs
import Mathlib.Data.List.Induction
import Mathlib.Data.List.TakeWhile

/-!
# Tokens and literals

Cutting a text into tokens loses nothing (`Token.join_tokens`). This tells which texts are taken for
whole numbers (`Expression.literalType_eq_int_iff`): digits, or a minus sign and digits. Blanks are
no tokens that count, so they may stand between the sign and the digits. Digits are read if there
are not too many of them (`Numeral.read_eq_ok`), and a number that was read can be written again
within the same limit (`Numeral.length_toDigits_of_read`).
-/

namespace Blockflow

open Text

/-! ## Blanks -/

namespace Text

/-- All blanks. -/
def blanks : List Char :=
  blankRanges.flatMap fun range =>
    (List.range (range.2 - range.1 + 1)).map fun i => Char.ofNat (range.1 + i)

theorem mem_blanks {c : Char} (h : isBlank c = true) : c ∈ blanks := by
  unfold isBlank inRanges at h
  obtain ⟨range, hrange, h⟩ := List.any_eq_true.mp h
  simp only [Bool.and_eq_true, decide_eq_true_eq] at h
  refine List.mem_flatMap.mpr ⟨range, hrange, List.mem_map.mpr ⟨c.toNat - range.1, ?_, ?_⟩⟩
  · rw [List.mem_range]
    omega
  · rw [Nat.add_sub_cancel' h.1, Char.ofNat_toNat]

/-- A text that neither starts nor ends with a blank. -/
structure Stripped (s : List Char) : Prop where
  head : ∀ c ∈ s.head?, isBlank c = false
  last : ∀ c ∈ s.getLast?, isBlank c = false

theorem stripEnd_prefix (s : List Char) : stripEnd s <+: s := by
  unfold stripEnd
  rw [← List.reverse_suffix, List.reverse_reverse]
  exact List.dropWhile_suffix _

/-- A text that was stripped neither starts nor ends with a blank. -/
theorem strip_stripped (s : List Char) : Stripped (strip s) where
  head c hc := by
    have hhead : (stripStart s).head? = some c := by
      obtain ⟨rest, hrest⟩ := stripEnd_prefix (stripStart s)
      rw [← hrest, List.head?_append]
      exact (congrArg (Option.or · rest.head?) hc)
    have := List.head?_dropWhile_not isBlank s
    unfold stripStart at hhead
    rw [hhead] at this
    simpa using this
  last c hc := by
    have hlast : ((stripStart s).reverse.dropWhile isBlank).head? = some c := by
      rw [← List.getLast?_reverse]
      exact hc
    have := List.head?_dropWhile_not isBlank (stripStart s).reverse
    rw [hlast] at this
    simpa using this

theorem dropWhile_eq_self {p : Char → Bool} {s : List Char} (h : ∀ c ∈ s.head?, p c = false) :
    s.dropWhile p = s := by
  cases s with
  | nil => rfl
  | cons c rest => rw [List.dropWhile_cons_of_neg (by simp [h c rfl])]

/-- Stripping leaves such a text as it is. -/
theorem Stripped.strip_eq {s : List Char} (h : Stripped s) : strip s = s := by
  have hstart : stripStart s = s := dropWhile_eq_self h.head
  have hend : s.reverse.dropWhile isBlank = s.reverse :=
    dropWhile_eq_self fun c hc => h.last c (by rwa [List.head?_reverse] at hc)
  rw [strip, hstart, stripEnd, hend, List.reverse_reverse]

theorem stripEnd_append {s b : List Char} (hb : allBlank b = true) :
    stripEnd (s ++ b) = stripEnd s := by
  have hreverse : ∀ c ∈ b.reverse, isBlank c = true := fun c hc =>
    List.all_eq_true.mp hb c (List.mem_reverse.mp hc)
  rw [stripEnd, stripEnd, List.reverse_append, List.dropWhile_append_of_pos hreverse]

/-- Blanks around a text are stripped. -/
theorem strip_append {before s after : List Char} (hbefore : allBlank before = true)
    (hafter : allBlank after = true) : strip (before ++ s ++ after) = strip s := by
  rw [strip, strip, stripStart, stripStart, List.append_assoc,
    List.dropWhile_append_of_pos (List.all_eq_true.mp hbefore), List.dropWhile_append]
  split
  next hempty =>
    -- the text is blank itself
    rw [List.isEmpty_iff.mp hempty, List.dropWhile_eq_nil_iff.mpr (List.all_eq_true.mp hafter)]
  next => exact stripEnd_append hafter

/-- Blanks split off from a stripped text are empty. -/
theorem Stripped.eq_nil_of_append {s u v w : List Char} (h : Stripped s) (hs : s = u ++ v ++ w)
    (hu : allBlank u = true) (hw : allBlank w = true) : u = [] ∧ w = [] := by
  unfold allBlank at hu hw
  constructor
  · cases u with
    | nil => rfl
    | cons c rest =>
      have := h.head c (by simp [hs])
      simp [this] at hu
  · rcases List.eq_nil_or_concat w with rfl | ⟨rest, c, rfl⟩
    · rfl
    · have := h.last c (by simp [hs])
      simp [this] at hw

/-- The characters that a quoted text, a fraction, a negative number or an operator starts with. -/
def marks : List Char :=
  ['"', '\x27', '.', '-', '=', '+', '&', '|', '!', '<', '>', '*', '/', '%', ':']

/-- What blanks are not: they stand in no literal, name or operator. -/
theorem not_of_isBlank {c : Char} (h : isBlank c = true) :
    isDigit c = false ∧ isNameStart c = false ∧ Token.isSymbol c = false ∧ c ∉ marks := by
  have hall : (blanks.all fun c =>
      !isDigit c && !isNameStart c && !Token.isSymbol c && !marks.contains c) = true := by
    decide
  simpa [and_assoc] using List.all_eq_true.mp hall c (mem_blanks h)

/-- A digit is not a blank. -/
theorem isBlank_of_isDigit {c : Char} (h : isDigit c = true) : isBlank c = false := by
  by_contra hb
  rw [(not_of_isBlank (by simpa using hb)).1] at h
  cases h

/-- The digit written for a number below ten is read as that number. -/
theorem digitValue?_digitChar {n : Nat} (h : n < 10) : digitValue? n.digitChar = some n := by
  have hall : ∀ k ∈ List.range 10, digitValue? k.digitChar = some k := by decide
  exact hall n (List.mem_range.mpr h)

/-- A number is written in digits only. -/
theorem isDigit_of_mem_toDigits {n : Nat} {c : Char} (h : c ∈ Nat.toDigits 10 n) :
    isDigit c = true := by
  induction n using Nat.strongRecOn with
  | ind n ih =>
    rw [Nat.toDigits_eq_if (by decide)] at h
    split at h
    next hlt =>
      rw [List.mem_singleton.mp h, isDigit, digitValue?_digitChar hlt]
      rfl
    next hge =>
      rcases List.mem_append.mp h with h | h
      · exact ih (n / 10) (by omega) h
      · rw [List.mem_singleton.mp h, isDigit, digitValue?_digitChar (Nat.mod_lt n (by decide))]
        rfl

/-- The digits of a number write this number. -/
theorem readDigits_toDigits (n : Nat) : readDigits (Nat.toDigits 10 n) = n := by
  induction n using Nat.strongRecOn with
  | ind n ih =>
    rw [Nat.toDigits_eq_if (by decide)]
    split
    next hlt => simp [readDigits, digitValue?_digitChar hlt]
    next hge =>
      have hrest : readDigits (Nat.toDigits 10 (n / 10)) = n / 10 := ih (n / 10) (by omega)
      unfold readDigits at hrest ⊢
      rw [List.foldl_append, hrest, List.foldl_cons, List.foldl_nil,
        digitValue?_digitChar (Nat.mod_lt n (by decide)), Option.getD_some]
      omega

theorem digitValue?_lt {c : Char} {n : Nat} (h : digitValue? c = some n) : n < 10 := by
  obtain ⟨z, -, hz⟩ := List.exists_of_findSome?_eq_some h
  split at hz
  next hrange =>
    cases hz
    simp only [Bool.and_eq_true, decide_eq_true_eq] at hrange
    omega
  next => cases hz

/-- A run of digits writes a number with at most so many digits. -/
theorem readDigits_lt (digits : List Char) : readDigits digits < 10 ^ digits.length := by
  induction digits using List.reverseRecOn with
  | nil => decide
  | append_singleton rest c ih =>
    have hvalue : (digitValue? c).getD 0 < 10 := by
      cases hc : digitValue? c with
      | none => decide
      | some n => exact digitValue?_lt hc
    unfold readDigits at ih ⊢
    rw [List.foldl_append, List.length_append, List.length_singleton, Nat.pow_succ]
    simp only [List.foldl_cons, List.foldl_nil]
    omega

end Text

namespace Numeral

/-- Digits are read as a number exactly when there are not too many of them. -/
theorem read_eq_ok {digits : List Char} {n : Nat} :
    read digits = .ok n ↔ digits.length ≤ digitLimit ∧ n = readDigits digits := by
  unfold read
  split
  next hlong => simp only [reduceCtorEq, false_iff, not_and]; omega
  next hshort => simp only [Except.ok.injEq]; omega

/-- A number that is read has no more digits than can be read. -/
theorem length_toDigits_of_read {digits : List Char} (hne : digits ≠ []) {n : Nat}
    (h : read digits = .ok n) : (Nat.toDigits 10 n).length ≤ digitLimit := by
  obtain ⟨hlength, rfl⟩ := read_eq_ok.mp h
  have hle := (Nat.length_toDigits_le_iff (by decide) (List.length_pos_iff.mpr hne)).mpr
    (readDigits_lt digits)
  omega

end Numeral

/-! ## Tokens -/

namespace Token

/-- What a quote closes is a start of the text. -/
theorem closeQuote?_prefix {quote : Char} {s body : List Char}
    (h : closeQuote? quote s = some body) :
    body <+: s := by
  fun_induction closeQuote? quote s generalizing body with
  | case1 => cases h
  | case2 rest => cases h; exact ⟨rest, rfl⟩
  | case3 => cases h
  | case4 => cases h
  | case5 d more _ _ ih =>
    obtain ⟨b, hb, rfl⟩ := Option.map_eq_some_iff.mp h
    simpa using ih hb
  | case6 c rest _ _ ih =>
    obtain ⟨b, hb, rfl⟩ := Option.map_eq_some_iff.mp h
    simpa using ih hb

theorem exponent_prefix (s : List Char) : exponent s <+: s := by
  unfold exponent
  split
  next => exact List.prefix_rfl
  next c rest =>
    split
    next =>
      split
      next => exact List.nil_prefix
      next sign more =>
        split
        next =>
          split
          next => exact List.nil_prefix
          next digits _ => simpa using List.takeWhile_prefix isDigit
        next =>
          split
          next => exact List.nil_prefix
          next digits _ => simpa using List.takeWhile_prefix isDigit
    next => exact List.nil_prefix

/-- A number is not empty, and without a point it is made of digits. -/
theorem number?_eq_some {s d : List Char} (h : number? s = some d) :
    d <+: s ∧ d ≠ [] ∧ ('.' ∉ d → d.all isDigit = true) := by
  unfold number? at h
  have hs := List.takeWhile_append_dropWhile (p := isDigit) (l := s)
  split at h
  next rest hwhole hrest =>
    rw [hwhole, hrest] at hs
    split at h
    next => cases h
    next more hmore =>
      cases h
      refine ⟨?_, by simp, by simp⟩
      rw [← hs]
      simpa using List.takeWhile_prefix isDigit
  next => cases h
  next rest hrest hwhole =>
    cases h
    refine ⟨?_, by simp, by simp⟩
    rw [hrest] at hs
    obtain ⟨more, hmore⟩ := exponent_prefix (rest.dropWhile isDigit)
    exact ⟨more, by simp [hmore, hs]⟩
  next hwhole _ _ =>
    cases h
    exact ⟨List.takeWhile_prefix _, hwhole, fun _ => List.all_takeWhile⟩

/-- Digits alone are a number. -/
theorem number?_of_digits {d : List Char} (hne : d ≠ []) (h : d.all isDigit = true) :
    number? d = some d := by
  have htake : d.takeWhile isDigit = d :=
    List.takeWhile_eq_self_iff.mpr fun c hc => List.all_eq_true.mp h c hc
  have hdrop : d.dropWhile isDigit = [] :=
    List.dropWhile_eq_nil_iff.mpr fun c hc => List.all_eq_true.mp h c hc
  unfold number?
  rw [htake, hdrop]
  split
  next heq => cases heq
  next => exact absurd rfl hne
  next heq => cases heq
  next => rfl

/-- A number starts with a digit or a dot. -/
theorem number?_eq_none {c : Char} {rest : List Char} (hdigit : isDigit c = false)
    (hdot : c ≠ '.') :
    number? (c :: rest) = none := by
  unfold number?
  rw [List.takeWhile_cons_of_neg (by simp [hdigit]), List.dropWhile_cons_of_neg (by simp [hdigit])]
  split
  next heq => cases heq; exact absurd rfl hdot
  next => rfl
  next _ hne => exact absurd rfl hne
  next hne _ _ => exact absurd rfl hne

theorem op?_eq_some {c : Char} {rest text : List Char} (h : op? c rest = some text) :
    text <+: c :: rest ∧ text ≠ [] := by
  unfold op? at h
  split at h
  next d more =>
    split at h
    next => cases h; exact ⟨⟨more, rfl⟩, by simp⟩
    next =>
      split at h
      next => cases h; exact ⟨⟨d :: more, rfl⟩, by simp⟩
      next => cases h
  next =>
    split at h
    next => cases h; exact ⟨List.prefix_rfl, by simp⟩
    next => cases h

/-- The first token is a start of the text and not empty. A number is a number, and blanks are
blanks. -/
structure IsFirst (s : List Char) (t : Token) : Prop where
  isPrefix : t.text <+: s
  ne_nil : t.text ≠ []
  number : t.kind = .number → number? s = some t.text
  space : t.kind = .space → allBlank t.text = true

/-- The first token of a text is cut off as it should be. -/
theorem first_isFirst (c : Char) (rest : List Char) : IsFirst (c :: rest) (first c rest) := by
  unfold first
  split
  next body hbody =>
    refine ⟨?_, by simp, by simp, by simp⟩
    split at hbody
    next => exact List.cons_prefix_cons.mpr ⟨rfl, closeQuote?_prefix hbody⟩
    next => cases hbody
  next =>
    split
    next digits hdigits =>
      obtain ⟨hinit, hne, -⟩ := number?_eq_some hdigits
      exact ⟨hinit, hne, fun _ => hdigits, by simp⟩
    next =>
      split
      next =>
        exact ⟨List.cons_prefix_cons.mpr ⟨rfl, List.takeWhile_prefix _⟩, by simp, by simp, by simp⟩
      next =>
        split
        next text hop =>
          obtain ⟨hinit, hne⟩ := op?_eq_some hop
          exact ⟨hinit, hne, by simp, by simp⟩
        next =>
          split
          next hblank =>
            refine ⟨List.cons_prefix_cons.mpr ⟨rfl, List.takeWhile_prefix _⟩, by simp, by simp, ?_⟩
            intro _
            rw [allBlank, List.all_cons, hblank, Bool.true_and]
            exact List.all_takeWhile
          next => exact ⟨⟨rest, rfl⟩, by simp, by simp, by simp⟩

/-! ## Cutting -/

/-- Cutting with characters to skip is cutting what stands behind them. -/
theorem scan_eq_tokens : ∀ (skip : Nat) (s : List Char), scan skip s = tokens (s.drop skip)
  | 0, s => by rw [List.drop_zero, tokens]
  | skip + 1, [] => rfl
  | skip + 1, c :: rest => by rw [scan, scan_eq_tokens skip rest, List.drop_succ_cons]

/-- Cutting goes on behind the first token. -/
theorem tokens_cons (c : Char) (rest : List Char) :
    tokens (c :: rest) =
      first c rest :: tokens ((c :: rest).drop (first c rest).text.length) := by
  obtain ⟨k, hk⟩ := Nat.exists_eq_succ_of_ne_zero
    (mt List.length_eq_zero_iff.mp (first_isFirst c rest).ne_nil)
  rw [tokens, scan, scan_eq_tokens, hk]
  rfl

/-- **Cutting into tokens loses nothing.** -/
theorem join_tokens (s : List Char) : join (tokens s) = s := by
  induction hlen : s.length using Nat.strongRecOn generalizing s with
  | _ m ih =>
    cases s with
    | nil => rfl
    | cons c rest =>
      have hfirst := first_isFirst c rest
      have hpos := List.length_pos_iff.mpr hfirst.ne_nil
      obtain ⟨more, hmore⟩ := hfirst.isPrefix
      rw [tokens_cons, join, List.flatMap_cons, ← hmore, List.drop_left]
      have hlt : more.length < m := by
        rw [← hlen, ← hmore, List.length_append]
        omega
      exact congrArg _ (ih _ hlt more rfl)

/-- Every token was a first one, of some text. -/
theorem exists_isFirst_of_mem {t : Token} : ∀ (skip : Nat) (s : List Char), t ∈ scan skip s →
    ∃ s', IsFirst s' t
  | _, [], h => by simp [scan] at h
  | skip + 1, _ :: rest, h => exists_isFirst_of_mem skip rest h
  | 0, c :: rest, h => by
    rw [scan] at h
    rcases List.mem_cons.mp h with rfl | h
    · exact ⟨_, first_isFirst c rest⟩
    · exact exists_isFirst_of_mem _ rest h

/-! ## The tokens of a whole number -/

theorem isPair_eq_false {c d : Char} (h : c ∉ marks) : isPair c d = false := by
  unfold isPair
  split <;> simp_all [marks]

theorem first_of_isBlank {c : Char} (rest : List Char) (h : isBlank c = true) :
    first c rest = ⟨.space, c :: rest.takeWhile isBlank⟩ := by
  obtain ⟨hdigit, hname, hsymbol, hmem⟩ := not_of_isBlank h
  have hop : op? c rest = none := by
    cases rest with
    | nil => simp [op?, hsymbol]
    | cons d more => simp [op?, hsymbol, isPair_eq_false hmem]
  have hquote : ¬ (c = '"' ∨ c = '\x27') := by
    rintro (rfl | rfl) <;> simp [marks] at hmem
  have hdot : c ≠ '.' := by
    rintro rfl
    simp [marks] at hmem
  simp [first, hquote, number?_eq_none hdigit hdot, hname, hop, h]

/-- Digits are cut into one token. -/
theorem tokens_digits {d : List Char} (hne : d ≠ []) (h : d.all isDigit = true) :
    tokens d = [⟨.number, d⟩] := by
  cases d with
  | nil => exact absurd rfl hne
  | cons c rest =>
    have hquote : ¬ (c = '"' ∨ c = '\x27') := by
      rintro (rfl | rfl) <;>
      · rw [List.all_cons] at h
        exact absurd (Bool.and_eq_true_iff.mp h).1 (by decide)
    have hfirst : first c rest = ⟨.number, c :: rest⟩ := by
      simp [first, hquote, number?_of_digits hne h]
    rw [tokens_cons, hfirst, List.drop_length]
    rfl

/-- A text that starts with a blank has its whole run of blanks for the first token. -/
theorem tokens_of_isBlank {c : Char} (s : List Char) (h : isBlank c = true) :
    tokens (c :: s) = ⟨.space, c :: s.takeWhile isBlank⟩ :: tokens (s.dropWhile isBlank) := by
  have hdrop : s.drop (s.takeWhile isBlank).length = s.dropWhile isBlank :=
    calc s.drop (s.takeWhile isBlank).length
        = (s.takeWhile isBlank ++ s.dropWhile isBlank).drop (s.takeWhile isBlank).length := by
          rw [List.takeWhile_append_dropWhile]
      _ = s.dropWhile isBlank := List.drop_left
  rw [tokens_cons, first_of_isBlank _ h, List.length_cons, List.drop_succ_cons, hdrop]

theorem solid_dropWhile (s : List Char) : solid (s.dropWhile isBlank) = solid s := by
  cases s with
  | nil => rfl
  | cons c rest =>
    by_cases hc : isBlank c = true
    · have hcons : solid (c :: rest) = solid (rest.dropWhile isBlank) := by
        rw [solid, tokens_of_isBlank rest hc, List.filter_cons_of_neg (by simp [isSolid]), solid]
      rw [List.dropWhile_cons_of_pos hc, hcons]
    · rw [List.dropWhile_cons_of_neg hc]

/-- Blanks in front add no token that counts. -/
theorem solid_blanks {b : List Char} (hb : allBlank b = true) (s : List Char) :
    solid (b ++ s) = solid s := by
  rw [← solid_dropWhile, List.dropWhile_append_of_pos (List.all_eq_true.mp hb), solid_dropWhile]

/-- A minus sign and digits are two tokens, whatever blanks stand between. -/
theorem solid_negative {b d : List Char} (hb : allBlank b = true) (hne : d ≠ [])
    (hd : d.all isDigit = true) :
    solid ('-' :: (b ++ d)) = [⟨.op, ['-']⟩, ⟨.number, d⟩] := by
  have hhead : ∀ c ∈ (b ++ d).head?, c ≠ '-' ∧ c ≠ '=' := by
    intro c hc
    have hmem : c ∈ b ∨ c ∈ d := List.mem_append.mp (List.mem_of_mem_head? hc)
    rcases hmem with hmem | hmem
    · obtain ⟨-, -, -, hnot⟩ := not_of_isBlank (List.all_eq_true.mp hb c hmem)
      simp only [marks, List.mem_cons, not_or] at hnot
      exact ⟨hnot.2.2.2.1, hnot.2.2.2.2.1⟩
    · constructor <;>
      · rintro rfl
        exact absurd (List.all_eq_true.mp hd _ hmem) (by decide)
  have hfirst : first '-' (b ++ d) = ⟨.op, ['-']⟩ := by
    have hop : op? '-' (b ++ d) = some ['-'] := by
      unfold op?
      split
      next c more heq =>
        have := hhead c (by simp [heq])
        have hpair : isPair '-' c = false := by
          unfold isPair
          split <;> simp_all
        have hsymbol : isSymbol '-' = true := by decide
        simp [hpair, hsymbol]
      next => decide
    have hnumber : number? ('-' :: (b ++ d)) = none := number?_eq_none (by decide) (by decide)
    have hname : isNameStart '-' = false := by decide
    simp [first, hnumber, hname, hop]
  rw [solid, tokens_cons, hfirst, List.filter_cons_of_pos (by simp [isSolid])]
  refine congrArg _ ?_
  show solid (b ++ d) = _
  rw [solid_blanks hb, solid, tokens_digits hne hd]
  rfl

/-- The text around the tokens that count is blank. -/
theorem allBlank_join {ts : List Token} {s : List Char} (hts : ∀ t ∈ ts, t ∈ tokens s)
    (h : ∀ t ∈ ts, ¬ isSolid t = true) : allBlank (join ts) = true := by
  rw [allBlank, List.all_eq_true]
  intro c hc
  obtain ⟨t, ht, hct⟩ := List.mem_flatMap.mp hc
  obtain ⟨s', hfirst⟩ := exists_isFirst_of_mem 0 s (hts t ht)
  have hkind : t.kind = .space := by simpa [isSolid] using h t ht
  exact List.all_eq_true.mp (hfirst.space hkind) c hct

/-- A stripped text of one solid token is that token. -/
theorem eq_of_solid_singleton {s : List Char} {t : Token} (hs : Stripped s) (h : solid s = [t]) :
    t ∈ tokens s ∧ s = t.text := by
  obtain ⟨before, after, heq, hbefore, -, hafter⟩ := List.filter_eq_cons_iff.mp h
  have hmem : ∀ u ∈ before ++ t :: after, u ∈ tokens s := fun u hu => by rwa [heq]
  have hb : allBlank (join before) = true :=
    allBlank_join (fun u hu => hmem u (by simp [hu])) hbefore
  have ha : allBlank (join after) = true :=
    allBlank_join (fun u hu => hmem u (by simp [hu])) (List.filter_eq_nil_iff.mp hafter)
  have hjoin : s = join before ++ t.text ++ join after := by
    rw [← join_tokens s, heq]
    simp [join]
  obtain ⟨hnil, hnil'⟩ := hs.eq_nil_of_append hjoin hb ha
  refine ⟨hmem t (by simp), ?_⟩
  rw [hnil, hnil'] at hjoin
  simpa using hjoin

/-- A stripped text of two solid tokens is those tokens with blanks between. -/
theorem eq_of_solid_pair {s : List Char} {t u : Token} (hs : Stripped s) (h : solid s = [t, u]) :
    t ∈ tokens s ∧ u ∈ tokens s ∧ ∃ b, allBlank b = true ∧ s = t.text ++ b ++ u.text := by
  obtain ⟨before, rest, heq, hbefore, -, hrest⟩ := List.filter_eq_cons_iff.mp h
  obtain ⟨between, after, rfl, hbetween, -, hafter⟩ := List.filter_eq_cons_iff.mp hrest
  have hmem : ∀ w ∈ before ++ t :: (between ++ u :: after), w ∈ tokens s := fun w hw => by rwa [heq]
  have hb : allBlank (join before) = true :=
    allBlank_join (fun w hw => hmem w (by simp [hw])) hbefore
  have hm : allBlank (join between) = true :=
    allBlank_join (fun w hw => hmem w (by simp [hw])) hbetween
  have ha : allBlank (join after) = true :=
    allBlank_join (fun w hw => hmem w (by simp [hw])) (List.filter_eq_nil_iff.mp hafter)
  have hjoin : s = join before ++ (t.text ++ join between ++ u.text) ++ join after := by
    rw [← join_tokens s, heq]
    simp [join]
  obtain ⟨hnil, hnil'⟩ := hs.eq_nil_of_append hjoin hb ha
  refine ⟨hmem t (by simp), hmem u (by simp), join between, hm, ?_⟩
  rw [hnil, hnil'] at hjoin
  simpa using hjoin

end Token

/-! ## Literals -/

namespace Expression

open Token

/-- Digits, or a minus sign and digits, where blanks may stand after the sign. -/
def IsWhole (s : List Char) : Prop :=
  (s ≠ [] ∧ s.all isDigit = true) ∨
    ∃ b d, s = '-' :: (b ++ d) ∧ allBlank b = true ∧ d ≠ [] ∧ d.all isDigit = true

/-- A token of the type `int` is digits. -/
theorem number_of_numberType {s : List Char} {t : Token} (ht : t ∈ tokens s)
    (hkind : t.kind = .number) (htype : numberType t.text = .int) :
    t.text ≠ [] ∧ t.text.all isDigit = true := by
  obtain ⟨s', hfirst⟩ := exists_isFirst_of_mem 0 s ht
  obtain ⟨-, hne, hdigits⟩ := number?_eq_some (hfirst.number hkind)
  refine ⟨hne, hdigits ?_⟩
  unfold numberType at htype
  split at htype
  next => cases htype
  next hdot => simpa using hdot

theorem number_of_tokenType {t : Token} (h : tokenType t = .int) :
    t.kind = .number ∧ numberType t.text = .int := by
  unfold tokenType at h
  split at h
  next hkind => exact ⟨hkind, h⟩
  next =>
    unfold quotedType at h
    split at h <;> cases h
  next => split at h <;> cases h
  next => cases h

theorem numberType_digits {d : List Char} (h : d.all isDigit = true) : numberType d = .int := by
  have hdot : '.' ∉ d := fun hmem => absurd (List.all_eq_true.mp h _ hmem) (by decide)
  simp [numberType, hdot]

/-- **The texts that are taken for whole numbers.** -/
theorem literalType_eq_int_iff {s : List Char} (hs : Stripped s) :
    literalType s = .int ↔ IsWhole s := by
  unfold literalType
  rw [hs.strip_eq]
  constructor
  · intro h
    split at h
    next t hsolid =>
      obtain ⟨ht, heq⟩ := eq_of_solid_singleton hs hsolid
      obtain ⟨hkind, htype⟩ := number_of_tokenType h
      rw [heq]
      exact Or.inl (number_of_numberType ht hkind htype)
    next sign t hsolid =>
      obtain ⟨-, ht, b, hb, heq⟩ := eq_of_solid_pair hs hsolid
      split at h
      next hsign =>
        simp only [Bool.and_eq_true, decide_eq_true_eq] at hsign
        obtain ⟨hne, hd⟩ := number_of_numberType ht hsign.2 h
        rw [hsign.1] at heq
        exact Or.inr ⟨b, t.text, heq, hb, hne, hd⟩
      next => cases h
    next => cases h
  · rintro (⟨hne, hd⟩ | ⟨b, d, rfl, hb, hne, hd⟩)
    · rw [solid, tokens_digits hne hd]
      exact numberType_digits hd
    · rw [solid_negative hb hne hd]
      exact numberType_digits hd

end Expression

end Blockflow
