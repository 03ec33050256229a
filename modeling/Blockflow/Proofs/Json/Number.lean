import Blockflow.Json.Reader
import Blockflow.Json.Writer
import Blockflow.Proofs.Decimal.Shortest
import Blockflow.Proofs.Expression.Literal

/-!
# Numbers that are written and read

The text of a number is read as one lexeme, and the lexeme is the number as it was: a whole number
whose digits are not too many (`Json.lexes_intText`), and every finite number of the format, in
every decimal style (`Json.lexes_writeFloat`). What follows must not go on like a number.
-/

namespace Blockflow.Json

/-! ## Where a lexeme ends -/

/-- The text does not start with a digit. -/
def NoDigit (s : List Char) : Prop := ∀ c ∈ s.head?, c.isDigit = false

/-- A number ends where this text starts. -/
def Stops (s : List Char) : Prop :=
  ∀ c ∈ s.head?, c.isDigit = false ∧ c ≠ '.' ∧ c ≠ 'e' ∧ c ≠ 'E'

theorem Stops.noDigit {s : List Char} (h : Stops s) : NoDigit s := fun c hc => (h c hc).1

theorem takeWhile_of_noDigit {s : List Char} (h : NoDigit s) : s.takeWhile Char.isDigit = [] := by
  cases s with
  | nil => rfl
  | cons c rest => exact List.takeWhile_cons_of_neg (by simp [h c rfl])

/-- Digits end where the text behind them starts with none. -/
theorem takeWhile_digits {digits rest : List Char} (hdigits : ∀ c ∈ digits, c.isDigit = true)
    (hrest : NoDigit rest) : (digits ++ rest).takeWhile Char.isDigit = digits := by
  rw [List.takeWhile_append_of_pos hdigits, takeWhile_of_noDigit hrest, List.append_nil]

/-- Where a number ends there is no exponent. -/
theorem takeExponent_of_stops {s : List Char} (h : Stops s) : takeExponent s = none := by
  cases s with
  | nil => rfl
  | cons c rest =>
    obtain ⟨-, -, he, hE⟩ := h c rfl
    simp [takeExponent, he, hE]

theorem takeFraction_eq_nil {s : List Char} (h : ∀ c ∈ s.head?, c ≠ '.') : takeFraction s = [] := by
  unfold takeFraction
  split
  next rest => exact absurd rfl (h '.' rfl)
  next => rfl

/-! ## The parts of a number -/

/-- The digits of a number before its point. -/
def wholePart (s : List Char) : List Char :=
  match s with
  | '0' :: _ => ['0']
  | _ => s.takeWhile Char.isDigit

/-- The number at the start of a text, if these are its digits before the point. -/
def numberAfter (negative : Bool) (s whole : List Char) : Option (Lexeme × Nat) :=
  if whole.isEmpty then none
  else
    let fraction := takeFraction (s.drop whole.length)
    let width := if fraction.isEmpty then whole.length else whole.length + 1 + fraction.length
    match fraction, takeExponent (s.drop width) with
    | [], none =>
      match Numeral.read whole with
      | .ok n => some (.scalar (.int (if negative then -(n : Int) else n)), width)
      | .error e => some (.badNumber e, width)
    | fraction, exponent =>
      let (power, size) := exponent.getD (0, 0)
      some (.scalar (.float (.ofDecimal negative (readNat (whole ++ fraction))
        (power - fraction.length))), width + size)

/-- A number is read by its digits before the point. -/
theorem readNumber?_eq (negative : Bool) (s : List Char) :
    readNumber? negative s = numberAfter negative s (wholePart s) :=
  rfl

/-- A zero, or digits that start with no zero. -/
def IsWhole (digits : List Char) : Prop := digits = ['0'] ∨ Binary64.IsSignificant digits

theorem IsWhole.ne_nil {whole : List Char} (h : IsWhole whole) : whole ≠ [] := by
  rcases h with rfl | ⟨-, first, rest, rfl, -⟩ <;> exact List.cons_ne_nil _ _

/-- The digits before the point are read to their end. -/
theorem wholePart_append {whole rest : List Char} (hwhole : IsWhole whole) (hrest : NoDigit rest) :
    wholePart (whole ++ rest) = whole := by
  rcases hwhole with rfl | ⟨hdigits, first, more, rfl, hfirst⟩
  · rfl
  · unfold wholePart
    split
    next heq => exact absurd (List.cons.inj heq).1 hfirst
    next => exact takeWhile_digits hdigits hrest

/-- A fraction with its point; nothing if there is none. -/
def pointed (fraction : List Char) : List Char :=
  match fraction with
  | [] => []
  | digits => '.' :: digits

theorem noDigit_pointed_append {fraction rest : List Char} (h : NoDigit rest) :
    NoDigit (pointed fraction ++ rest) := by
  cases fraction with
  | nil => exact h
  | cons => simp [NoDigit, pointed]

/-- The digits behind a point are read to their end. -/
theorem takeFraction_pointed {fraction rest : List Char}
    (hdigits : ∀ c ∈ fraction, c.isDigit = true)
    (hrest : NoDigit rest) (hpoint : ∀ c ∈ rest.head?, c ≠ '.') :
    takeFraction (pointed fraction ++ rest) = fraction := by
  cases fraction with
  | nil => exact takeFraction_eq_nil hpoint
  | cons => exact takeWhile_digits hdigits hrest

/-- **A number with a fraction or an exponent.** -/
theorem readNumber?_float (negative : Bool) {whole fraction tail : List Char}
    (hwhole : IsWhole whole) (hfraction : ∀ c ∈ fraction, c.isDigit = true) (htail : NoDigit tail)
    (hpoint : ∀ c ∈ tail.head?, c ≠ '.') (hform : fraction = [] → takeExponent tail ≠ none) :
    readNumber? negative (whole ++ (pointed fraction ++ tail)) =
      some (.scalar (.float (.ofDecimal negative (readNat (whole ++ fraction))
        (((takeExponent tail).getD (0, 0)).1 - fraction.length))),
        whole.length + (pointed fraction).length + ((takeExponent tail).getD (0, 0)).2) := by
  have hwidth : (if fraction.isEmpty then whole.length else whole.length + 1 + fraction.length) =
      whole.length + (pointed fraction).length := by
    cases fraction with
    | nil => rfl
    | cons => simp [pointed]; omega
  have hdrop : (whole ++ (pointed fraction ++ tail)).drop
      (whole.length + (pointed fraction).length) = tail := by
    rw [← List.append_assoc, ← List.length_append, List.drop_left]
  rw [readNumber?_eq, wholePart_append hwhole (noDigit_pointed_append htail), numberAfter,
    if_neg (by simpa using hwhole.ne_nil), List.drop_left,
    takeFraction_pointed hfraction htail hpoint]
  -- by the assumption on its form it is not taken for a whole number
  simp only [hwidth, hdrop]

/-- **A whole number.** -/
theorem readNumber?_int (negative : Bool) {whole rest : List Char} (hwhole : IsWhole whole)
    (hlength : whole.length ≤ digitLimit) (hrest : Stops rest) :
    readNumber? negative (whole ++ rest) =
      some (.scalar (.int (if negative then -(Text.readDigits whole : Int)
        else Text.readDigits whole)), whole.length) := by
  have hfraction : takeFraction rest = [] := takeFraction_eq_nil fun c hc => (hrest c hc).2.1
  have hread : Numeral.read whole = .ok (Text.readDigits whole) := if_neg (by omega)
  rw [readNumber?_eq, wholePart_append hwhole hrest.noDigit, numberAfter,
    if_neg (by simpa using hwhole.ne_nil), List.drop_left, hfraction]
  simp only [List.isEmpty_nil, if_true, List.drop_left, takeExponent_of_stops hrest, hread]

/-- The text of an exponent, with its sign. -/
theorem takeExponent_append {sign digits rest : List Char}
    (hsign : sign = ['-'] ∨ sign = ['+'] ∨ sign = []) (hne : digits ≠ [])
    (hdigits : ∀ c ∈ digits, c.isDigit = true) (hrest : NoDigit rest) :
    takeExponent ('e' :: (sign ++ (digits ++ rest))) =
      some (if sign = ['-'] then -(readNat digits : Int) else readNat digits,
        1 + sign.length + digits.length) := by
  have htake := takeWhile_digits hdigits hrest
  obtain ⟨d, more, rfl⟩ := List.exists_cons_of_ne_nil hne
  have hd : d.isDigit = true := hdigits d List.mem_cons_self
  rcases hsign with rfl | rfl | rfl
  · simp only [takeExponent, List.cons_append, List.nil_append] at htake ⊢
    simp [htake]
  · simp only [takeExponent, List.cons_append, List.nil_append] at htake ⊢
    simp [htake]
  · have hminus : d ≠ '-' := by
      rintro rfl
      cases hd
    have hplus : d ≠ '+' := by
      rintro rfl
      cases hd
    simp only [takeExponent, List.cons_append, List.nil_append] at htake ⊢
    simp [htake, hminus, hplus]

/-! ## Decimals -/

open Binary64 (IsSignificant decimalValue)

/-- A number with a point is read as its digits and their place. -/
theorem readNumber?_pointed (negative : Bool) {whole fraction rest : List Char}
    (hwhole : IsWhole whole) (hne : fraction ≠ []) (hfraction : ∀ c ∈ fraction, c.isDigit = true)
    (hrest : Stops rest) :
    readNumber? negative (whole ++ '.' :: fraction ++ rest) =
      some (.scalar (.float (.ofDecimal negative (readNat (whole ++ fraction)) (-fraction.length))),
        (whole ++ '.' :: fraction).length) := by
  have hpointed : pointed fraction = '.' :: fraction := by
    cases fraction with
    | nil => exact absurd rfl hne
    | cons => rfl
  have h := readNumber?_float negative hwhole hfraction hrest.noDigit
    (fun c hc => (hrest c hc).2.1) fun hnil => absurd hnil hne
  rw [takeExponent_of_stops hrest, hpointed, ← List.append_assoc] at h
  rw [h, List.length_append]
  simp

/-- A number with an exponent is read as its digits and their place, moved by the exponent. -/
theorem readNumber?_scaled (negative : Bool) {whole fraction sign digits rest : List Char}
    (hwhole : IsWhole whole) (hfraction : ∀ c ∈ fraction, c.isDigit = true)
    (hsign : sign = ['-'] ∨ sign = ['+'] ∨ sign = []) (hne : digits ≠ [])
    (hdigits : ∀ c ∈ digits, c.isDigit = true) (hrest : Stops rest) :
    readNumber? negative (whole ++ pointed fraction ++ 'e' :: sign ++ digits ++ rest) =
      some (.scalar (.float (.ofDecimal negative (readNat (whole ++ fraction))
        ((if sign = ['-'] then -(readNat digits : Int) else readNat digits) - fraction.length))),
        (whole ++ pointed fraction ++ 'e' :: sign ++ digits).length) := by
  have hexponent := takeExponent_append hsign hne hdigits hrest.noDigit
  have htext : whole ++ pointed fraction ++ 'e' :: sign ++ digits ++ rest =
      whole ++ (pointed fraction ++ 'e' :: (sign ++ (digits ++ rest))) := by simp
  have htail : NoDigit ('e' :: (sign ++ (digits ++ rest))) := by simp [NoDigit]
  have h := readNumber?_float negative hwhole hfraction htail (by simp) fun _ => by simp [hexponent]
  rw [htext, h, hexponent]
  simp only [Option.getD_some, List.length_append, List.length_cons, Option.some.injEq,
    Prod.mk.injEq, true_and]
  omega

/-- The digits of a zero, or of another number. -/
def IsDigits (digits : List Char) (point : Int) : Prop :=
  digits = ['0'] ∧ point = 0 ∨ IsSignificant digits

theorem isDigit_of_mem_replicate {n : Nat} {c : Char} (h : c ∈ List.replicate n '0') :
    c.isDigit = true := by
  rw [List.eq_of_mem_replicate h]
  rfl

theorem IsDigits.isDigit {digits : List Char} {point : Int} (h : IsDigits digits point) :
    ∀ c ∈ digits, c.isDigit = true := by
  rcases h with ⟨rfl, -⟩ | h
  · exact fun c hc => isDigit_of_mem_replicate (n := 1) hc
  · exact h.1

/-- Digits may be added to a number that starts with no zero. -/
theorem IsSignificant.isWhole_append {digits more : List Char} (h : IsSignificant digits)
    (hmore : ∀ c ∈ more, c.isDigit = true) : IsWhole (digits ++ more) := by
  obtain ⟨hdigit, first, rest, rfl, hfirst⟩ := h
  refine .inr ⟨fun c hc => ?_, first, rest ++ more, rfl, hfirst⟩
  exact (List.mem_append.mp hc).elim (hdigit c) (hmore c)

/-- Zeros in front do not change a number. -/
theorem readNat_zeros (n : Nat) (digits : List Char) :
    readNat (List.replicate n '0' ++ digits) = readNat digits := by
  show Nat.ofDigitChars 10 (List.replicate n '0' ++ digits) 0 = Nat.ofDigitChars 10 digits 0
  rw [Nat.ofDigitChars_append, Nat.ofDigitChars_replicate_zero, Nat.mul_zero]

/-- Zeros behind multiply a number by a power of ten. -/
theorem readNat_append_zeros (digits : List Char) (n : Nat) :
    readNat (digits ++ List.replicate n '0') = 10 ^ n * readNat digits := by
  show Nat.ofDigitChars 10 (digits ++ List.replicate n '0') 0 =
    10 ^ n * Nat.ofDigitChars 10 digits 0
  rw [Nat.ofDigitChars_append, Nat.ofDigitChars_replicate_zero]

/-- The text is read as the ratio that the digits write. -/
def ReadsDecimal (digits : List Char) (point : Int) (text : List Char) : Prop :=
  ∀ (negative : Bool) (rest : List Char), Stops rest → ∃ (n : Nat) (power : Int),
    readNumber? negative (text ++ rest) =
      some (.scalar (.float (.ofDecimal negative n power)), text.length) ∧
    (n : ℚ) * 10 ^ power = decimalValue digits point

section

variable {digits : List Char} {point : Int}

theorem IsDigits.ne_nil (h : IsDigits digits point) : digits ≠ [] := by
  rcases h with ⟨rfl, -⟩ | ⟨-, first, more, rfl, -⟩ <;> exact List.cons_ne_nil _ _

/-- The first digits write a whole number. -/
theorem IsDigits.isWhole_take (h : IsDigits digits point) {k : Nat} (hk : 0 < k) :
    IsWhole (digits.take k) := by
  obtain ⟨n, rfl⟩ := Nat.exists_eq_add_one.mpr hk
  rcases h with ⟨rfl, -⟩ | ⟨hdigit, first, more, rfl, hfirst⟩
  · exact .inl (by simp)
  · exact .inr ⟨fun c hc => hdigit c (List.mem_of_mem_take hc), first, more.take n, rfl, hfirst⟩

/-- The ratio of some digits is their number, moved by the place of the point. -/
theorem decimalValue_eq :
    decimalValue digits point = readNat digits * 10 ^ (point + 1 - digits.length) :=
  rfl

/-- Zeros stand between the point and the digits. -/
theorem readsDecimal_small (h : IsDigits digits point) (hneg : point < 0) :
    ReadsDecimal digits point
      ('0' :: '.' :: List.replicate ((-point).toNat - 1) '0' ++ digits) := by
  intro negative rest hrest
  generalize hk : (-point).toNat - 1 = k
  have hfraction : ∀ c ∈ List.replicate k '0' ++ digits, c.isDigit = true := fun c hc =>
    (List.mem_append.mp hc).elim isDigit_of_mem_replicate (h.isDigit c)
  have hread :=
    readNumber?_pointed negative (.inl rfl : IsWhole ['0']) (by simp [h.ne_nil]) hfraction
      hrest
  refine ⟨_, _, hread, ?_⟩
  have hzeros :
      ['0'] ++ (List.replicate k '0' ++ digits) = List.replicate (k + 1) '0' ++ digits := rfl
  rw [hzeros, readNat_zeros, decimalValue_eq]
  congr 2
  rw [List.length_append, List.length_replicate]
  omega

/-- Zeros stand between the digits and the point. -/
theorem readsDecimal_large (h : IsDigits digits point) (hpoint : 0 ≤ point)
    (hle : digits.length ≤ point.toNat + 1) :
    ReadsDecimal digits point
      (digits ++ List.replicate (point.toNat + 1 - digits.length) '0' ++ ['.', '0']) := by
  intro negative rest hrest
  generalize hk : point.toNat + 1 - digits.length = k
  have hwhole : IsWhole (digits ++ List.replicate k '0') := by
    rcases h with ⟨rfl, rfl⟩ | h
    · obtain rfl : 0 = k := hk
      exact .inl rfl
    · exact IsSignificant.isWhole_append h fun c hc => isDigit_of_mem_replicate hc
  have hfraction : ∀ c ∈ ['0'], c.isDigit = true := by simp
  refine ⟨_, _, readNumber?_pointed negative hwhole (by simp) hfraction hrest, ?_⟩
  have hpower : (k : ℤ) = point + 1 - digits.length := by omega
  rw [List.append_assoc, ← List.replicate_succ', readNat_append_zeros, decimalValue_eq, ← hpower,
    zpow_natCast, List.length_singleton]
  push_cast
  rw [pow_succ, zpow_neg_one]
  ring

/-- The point stands between the digits. -/
theorem readsDecimal_between (h : IsDigits digits point) (hpoint : 0 ≤ point)
    (hlt : point.toNat + 1 < digits.length) :
    ReadsDecimal digits point
      (digits.take (point.toNat + 1) ++ '.' :: digits.drop (point.toNat + 1)) := by
  intro negative rest hrest
  generalize hk : point.toNat + 1 = k at hlt
  refine ⟨_, _, readNumber?_pointed negative (h.isWhole_take (by omega)) ?_
    (fun c hc => h.isDigit c (List.mem_of_mem_drop hc)) hrest, ?_⟩
  · intro hnil
    have := congrArg List.length hnil
    simp at this
    omega
  · rw [List.take_append_drop, decimalValue_eq]
    congr 2
    rw [List.length_drop]
    omega

/-- The first digit and perhaps a fraction, before the exponent. -/
theorem readsDecimal_scaled (style : DecimalStyle) (h : IsDigits digits point) {first : Char}
    {more : List Char} (hdigits : digits = first :: more) :
    ReadsDecimal digits point
      ([first] ++ pointed more ++
        'e' :: (if point < 0 then ['-'] else if style.plusSign then ['+'] else []) ++
        (List.replicate (style.exponentWidth - (Nat.toDigits 10 point.natAbs).length) '0' ++
          Nat.toDigits 10 point.natAbs)) := by
  intro negative rest hrest
  generalize hsign : (if point < 0 then ['-'] else if style.plusSign then ['+'] else []) = sign
  generalize style.exponentWidth - (Nat.toDigits 10 point.natAbs).length = k
  have hwhole : IsWhole [first] := by
    have htake := h.isWhole_take Nat.one_pos
    rwa [hdigits] at htake
  have hsigns : sign = ['-'] ∨ sign = ['+'] ∨ sign = [] := by
    rw [← hsign]
    split
    · exact .inl rfl
    · split
      · exact .inr (.inl rfl)
      · exact .inr (.inr rfl)
  have hexponent : (if sign = ['-'] then
      -(readNat (List.replicate k '0' ++ Nat.toDigits 10 point.natAbs) : Int)
      else readNat (List.replicate k '0' ++ Nat.toDigits 10 point.natAbs)) = point := by
    have hread : readNat (Nat.toDigits 10 point.natAbs) = point.natAbs :=
      Nat.ofDigitChars_ten_toDigits
    rw [readNat_zeros, hread, ← hsign]
    by_cases hneg : point < 0
    · rw [if_pos hneg, if_pos rfl]
      omega
    · rw [if_neg hneg, if_neg (by split <;> decide)]
      omega
  refine ⟨_, _, readNumber?_scaled negative hwhole ?_ hsigns ?_ ?_ hrest, ?_⟩
  · exact fun c hc => h.isDigit c (hdigits ▸ List.mem_cons_of_mem _ hc)
  · simp [Nat.toDigits_ne_nil]
  · exact fun c hc => (List.mem_append.mp hc).elim isDigit_of_mem_replicate
      (Nat.isDigit_of_mem_toDigits (by decide) (by decide))
  · rw [hexponent, decimalValue_eq, hdigits, List.singleton_append]
    congr 2
    rw [List.length_cons]
    push_cast
    ring

/-- **Digits that are laid out are read as the ratio that they write**, in every style. -/
theorem readsDecimal_layout (style : DecimalStyle) (h : IsDigits digits point) :
    ReadsDecimal digits point (style.layout digits point) := by
  unfold DecimalStyle.layout
  split
  next =>
    by_cases hneg : point < 0
    · rw [if_pos hneg]
      exact readsDecimal_small h hneg
    · rw [if_neg hneg]
      by_cases hle : digits.length ≤ point.toNat + 1
      · simp only [if_pos hle]
        exact readsDecimal_large h (by omega) hle
      · simp only [if_neg hle]
        exact readsDecimal_between h (by omega) (by omega)
  next =>
    obtain ⟨first, more, hdigits⟩ := List.exists_cons_of_ne_nil h.ne_nil
    have hscaled := readsDecimal_scaled style h hdigits
    rw [← List.append_assoc] at hscaled
    subst hdigits
    cases more <;> exact hscaled

end

/-! ## Numbers of the format -/

section

variable {mantissa : Nat} {exponent : Int}

/-- The shortest digits of a number are well formed. -/
theorem isDigits_shortest (hfits : Binary64.Fits mantissa exponent) :
    IsDigits (Binary64.shortest mantissa exponent).1 (Binary64.shortest mantissa exponent).2 := by
  rcases Nat.eq_zero_or_pos mantissa with rfl | hpos
  · exact .inl ⟨rfl, rfl⟩
  · exact .inr (Binary64.roundsTo_shortest hfits hpos).1

/-- Every decimal that has the value of the shortest one is rounded to the number. -/
theorem ofDecimal_eq_of_shortest (negative : Bool) (hfits : Binary64.Fits mantissa exponent)
    {n : Nat} {power : Int}
    (h : (n : ℚ) * 10 ^ power = decimalValue (Binary64.shortest mantissa exponent).1
      (Binary64.shortest mantissa exponent).2) :
    Binary64.ofDecimal negative n power = .finite negative mantissa exponent := by
  have hten : (0 : ℚ) < 10 ^ power := zpow_pos (by norm_num) power
  rcases Nat.eq_zero_or_pos mantissa with rfl | hpos
  · have hn : n = 0 := by
      have hzero :
          decimalValue (Binary64.shortest 0 exponent).1 (Binary64.shortest 0 exponent).2 = 0 := by
        simp [Binary64.shortest, decimalValue, Nat.ofDigitChars_cons]
      rw [hzero, mul_eq_zero] at h
      exact_mod_cast h.resolve_right hten.ne'
    have hexponent : exponent = -1074 := hfits.full.resolve_left (by decide)
    rw [hn, hexponent]
    rfl
  · have hrounds := (Binary64.roundsTo_shortest hfits hpos).2
    rw [← h] at hrounds
    have hn : (0 : ℚ) < n := pos_of_mul_pos_left (hrounds.pos hpos) hten.le
    exact Binary64.ofDecimal_eq negative (by exact_mod_cast hn) hpos hfits hrounds

/-- The text of a number of the format is read as the number. -/
theorem readNumber?_shortest (style : DecimalStyle) (negative : Bool)
    (hfits : Binary64.Fits mantissa exponent) {rest : List Char} (hrest : Stops rest) :
    let text := style.layout (Binary64.shortest mantissa exponent).1
      (Binary64.shortest mantissa exponent).2
    readNumber? negative (text ++ rest) =
      some (.scalar (.float (.finite negative mantissa exponent)), text.length) := by
  obtain ⟨n, power, hread, hvalue⟩ :=
    readsDecimal_layout style (isDigits_shortest hfits) negative rest hrest
  rw [ofDecimal_eq_of_shortest negative hfits hvalue] at hread
  exact hread

end

/-! ## Lexemes -/

/-- The text is one lexeme, if what follows does not go on like a number. -/
def Lexes (text : List Char) (lexeme : Lexeme) : Prop :=
  ∀ (offset : Nat) (rest : List Char), Stops rest →
    lex 0 offset (text ++ rest) = (offset, lexeme) :: lex 0 (offset + text.length) rest

/-- Characters to skip make no lexeme. -/
theorem lex_length_append : ∀ (s : List Char) (offset : Nat) (rest : List Char),
    lex s.length offset (s ++ rest) = lex 0 (offset + s.length) rest
  | [], offset, rest => rfl
  | c :: s, offset, rest => by
    rw [List.length_cons, List.cons_append, lex, lex_length_append s, Nat.add_right_comm,
      Nat.add_assoc]

/-- A text whose first lexeme takes all of it is one lexeme. -/
theorem lexes_of_nextLexeme {c : Char} {s : List Char} {lexeme : Lexeme} (hc : isSpace c = false)
    (h : ∀ offset rest, Stops rest → nextLexeme offset c (s ++ rest) = (lexeme, s.length)) :
    Lexes (c :: s) lexeme := by
  intro offset rest hrest
  rw [List.cons_append, lex, hc]
  simp only [Bool.false_eq_true, if_false, h offset rest hrest, lex_length_append, List.length_cons]
  rw [Nat.add_right_comm, Nat.add_assoc]

theorem ne_of_isDigit {c d : Char} (hc : c.isDigit = true) (hd : d.isDigit = false) : c ≠ d := by
  rintro rfl
  rw [hc] at hd
  cases hd

/-- A number starts with a digit. -/
theorem isDigit_of_readNumber? {negative : Bool} {s : List Char} {result : Lexeme × Nat}
    (h : readNumber? negative s = some result) : ∃ d more, s = d :: more ∧ d.isDigit = true := by
  cases s with
  | nil => cases h
  | cons c rest =>
    refine ⟨c, rest, rfl, ?_⟩
    by_contra hc
    have hwhole : wholePart (c :: rest) = [] := by
      unfold wholePart
      split
      next heq =>
        cases heq
        exact absurd rfl hc
      next => exact List.takeWhile_cons_of_neg hc
    rw [readNumber?_eq, hwhole] at h
    cases h

theorem readNamed?_of_isDigit {c : Char} (hc : c.isDigit = true) (rest : List Char) :
    readNamed? (c :: rest) = none := by
  have hne : ∀ d : Char, d.isDigit = false → d ≠ c := fun d hd => (ne_of_isDigit hc hd).symm
  simp [readNamed?, namedValues, hne]

theorem readNamed?_minus {c : Char} (hc : c.isDigit = true) (rest : List Char) :
    readNamed? ('-' :: c :: rest) = none := by
  have hne : 'I' ≠ c := (ne_of_isDigit hc (by rfl)).symm
  simp [readNamed?, namedValues, hne]

/-- **A number with its sign is one lexeme.** -/
theorem lexes_number {negative : Bool} {text : List Char} {lexeme : Lexeme}
    (h : ∀ rest, Stops rest → readNumber? negative (text ++ rest) = some (lexeme, text.length)) :
    Lexes ((if negative then ['-'] else []) ++ text) lexeme := by
  obtain ⟨d, more, htext, hd⟩ := isDigit_of_readNumber? (h [] (by simp [Stops]))
  rw [List.append_nil] at htext
  cases negative with
  | true =>
    show Lexes ('-' :: text) lexeme
    refine lexes_of_nextLexeme rfl fun offset rest hrest => ?_
    have hnamed := readNamed?_minus hd (more ++ rest)
    rw [← List.cons_append, ← htext] at hnamed
    simp [nextLexeme, hnamed, h rest hrest]
  | false =>
    have hne : ∀ c : Char, c.isDigit = false → d ≠ c := fun c hc => ne_of_isDigit hd hc
    rw [htext] at h ⊢
    refine lexes_of_nextLexeme ?_ fun offset rest hrest => ?_
    · simp [isSpace, hne]
    · have hread := h rest hrest
      rw [List.cons_append] at hread
      simp [nextLexeme, hne, readNamed?_of_isDigit hd, hread]

/-- A whole number is written as one lexeme if its digits are not too many. -/
theorem lexes_intText {n : Int} (h : (Nat.toDigits 10 n.natAbs).length ≤ digitLimit) :
    Lexes (intText n) (.scalar (.int n)) := by
  have hwhole : IsWhole (Nat.toDigits 10 n.natAbs) := by
    rcases Nat.eq_zero_or_pos n.natAbs with hzero | hpos
    · rw [hzero]
      exact .inl rfl
    · exact .inr (Binary64.isSignificant_toDigits hpos)
  have hlexes := lexes_number fun rest hrest => readNumber?_int (n < 0) hwhole h hrest
  rw [Text.readDigits_toDigits] at hlexes
  by_cases hneg : n < 0
  · simp only [hneg, decide_true, if_true] at hlexes
    rw [intText, if_pos hneg]
    rwa [show -(n.natAbs : Int) = n by omega] at hlexes
  · simp only [hneg, decide_false, Bool.false_eq_true, if_false, List.nil_append] at hlexes
    rw [intText, if_neg hneg]
    rwa [show (n.natAbs : Int) = n by omega] at hlexes

/-- A number of the format is written as one lexeme in each style. -/
theorem lexes_writeFloat (style : Style) {negative : Bool} {mantissa : Nat} {exponent : Int}
    (hfits : Binary64.Fits mantissa exponent) :
    Lexes (writeFloat style (.finite negative mantissa exponent))
      (.scalar (.float (.finite negative mantissa exponent))) := by
  rw [writeFloat, DecimalStyle.write, String.toList_ofList]
  exact lexes_number fun rest hrest => readNumber?_shortest style.decimals negative hfits hrest

end Blockflow.Json
