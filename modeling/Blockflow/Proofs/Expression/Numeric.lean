import Blockflow.Proofs.Expression.Characters

/-!
# Numbers at the start of a text

Whether a text starts with a number, and where the number ends, depends only on the run of numeric
characters at its start (`Token.number?_takeWhile`), and a number stays the same when less of them
follow (`Token.number?_of_isPrefix`). So what stands behind a number can be exchanged for other text
as long as no numeric characters are added (`Token.number?_exchange`).
-/

namespace Blockflow

open Text

namespace Text

variable {p q : Char → Bool}

theorem takeWhile_takeWhile_of_imp (h : ∀ c, p c = true → q c = true) (s : List Char) :
    (s.takeWhile q).takeWhile p = s.takeWhile p := by
  induction s with
  | nil => rfl
  | cons c rest ih =>
    by_cases hq : q c = true
    · by_cases hp : p c = true
      · simp [hq, hp, ih]
      · simp [hq, hp]
    · have hp : ¬ p c = true := fun hp => hq (h c hp)
      simp [hq, hp]

theorem dropWhile_takeWhile_of_imp (h : ∀ c, p c = true → q c = true) (s : List Char) :
    (s.takeWhile q).dropWhile p = (s.dropWhile p).takeWhile q := by
  induction s with
  | nil => rfl
  | cons c rest ih =>
    by_cases hq : q c = true
    · by_cases hp : p c = true
      · simp [hq, hp, ih]
      · simp [hq, hp]
    · have hp : ¬ p c = true := fun hp => hq (h c hp)
      simp [hq, hp]

/-- A run of characters ends where the rest does not go on with it. -/
theorem takeWhile_append_of_head {u rest : List Char} (hu : ∀ c ∈ u, p c = true)
    (hrest : ∀ c ∈ rest.head?, p c = false) : (u ++ rest).takeWhile p = u := by
  rw [List.takeWhile_append_of_pos hu]
  cases rest with
  | nil => simp
  | cons c more => simp [hrest c rfl]

/-- A run of characters with more behind it: all of it is in the class, and the rest goes on with
another character. -/
theorem of_takeWhile_append {more rest : List Char}
    (h : (more ++ rest).takeWhile p = more) :
    (∀ d ∈ more, p d = true) ∧ ∀ d ∈ rest.head?, p d = false := by
  have hall : ∀ d ∈ more, p d = true := by
    rw [← h]
    exact fun d hd => List.all_eq_true.mp List.all_takeWhile d hd
  refine ⟨hall, fun d hd => ?_⟩
  rw [List.takeWhile_append_of_pos hall, List.append_right_eq_self] at h
  cases rest with
  | nil => cases hd
  | cons e tail =>
    cases hd
    by_contra hp
    simp [hp] at h

theorem head?_of_isPrefix {s s' : List Char} (h : s' <+: s) {c : Char} (hc : c ∈ s'.head?) :
    c ∈ s.head? := by
  obtain ⟨more, rfl⟩ := h
  rw [List.head?_append, hc]
  rfl

/-- What ends at some text also ends where less follows. -/
theorem takeWhile_append_of_isPrefix {u s s' : List Char}
    (hs : s' <+: s) (h : (u ++ s).takeWhile p = u) : (u ++ s').takeWhile p = u := by
  obtain ⟨hu, hhead⟩ := of_takeWhile_append h
  exact takeWhile_append_of_head hu fun c hc => hhead c (head?_of_isPrefix hs hc)

theorem takeWhile_eq_nil_of_isPrefix {s s' : List Char} (hs : s' <+: s)
    (h : s.takeWhile p = []) : s'.takeWhile p = [] :=
  takeWhile_append_of_isPrefix (u := []) hs h

end Text

namespace Token

/-! ## Numeric characters -/

/-- The characters that a number is made of. -/
def isNumeric (c : Char) : Bool :=
  isDigit c || c = '.' || c = 'e' || c = 'E' || c = '+' || c = '-'

theorem isNumeric_of_isDigit (c : Char) (h : isDigit c = true) : isNumeric c = true := by
  simp [isNumeric, h]

/-- Only numeric characters matter for the digits at the start. -/
theorem takeWhile_isDigit_numeric (s : List Char) :
    (s.takeWhile isNumeric).takeWhile isDigit = s.takeWhile isDigit :=
  takeWhile_takeWhile_of_imp isNumeric_of_isDigit s

/-- The digits at the start of a text with a mark before them, if there are any digits. -/
def marked (mark s : List Char) : List Char :=
  if s.takeWhile isDigit = [] then [] else mark ++ s.takeWhile isDigit

theorem marked_takeWhile (mark s : List Char) :
    marked mark (s.takeWhile isNumeric) = marked mark s := by
  rw [marked, takeWhile_isDigit_numeric, marked]

theorem marked_eq_nil_iff {mark s : List Char} (hmark : mark ≠ []) :
    marked mark s = [] ↔ s.takeWhile isDigit = [] := by
  by_cases hnil : s.takeWhile isDigit = [] <;> simp [marked, hnil, hmark]

/-- Digits with a mark are found if there are digits. -/
theorem marked_eq_append_iff {mark s w : List Char} (hmark : mark ≠ []) :
    marked mark s = mark ++ w ↔ w ≠ [] ∧ s.takeWhile isDigit = w := by
  by_cases hnil : s.takeWhile isDigit = []
  · simp [marked, hnil, hmark, eq_comm]
  · rw [marked, if_neg hnil, List.append_cancel_left_eq]
    exact ⟨fun h => ⟨h ▸ hnil, h⟩, And.right⟩

/-- The exponent of a text that has the letter for one. -/
theorem exponent_cons {c : Char} (hc : c = 'e' ∨ c = 'E') (d : Char) (s : List Char) :
    exponent (c :: d :: s) =
      if d = '+' ∨ d = '-' then marked [c, d] s else marked [c] (d :: s) := by
  by_cases hd : d = '+' ∨ d = '-'
  · rw [if_pos hd]
    cases hdigits : s.takeWhile isDigit <;> simp [exponent, marked, hc, hd, hdigits]
  · rw [if_neg hd]
    cases hdigits : (d :: s).takeWhile isDigit <;> simp [exponent, marked, hc, hd, hdigits]

theorem exponent_eq_nil {c : Char} (hc : ¬ (c = 'e' ∨ c = 'E')) (s : List Char) :
    exponent (c :: s) = [] := by
  simp [exponent, hc]

/-- Only numeric characters matter for an exponent. -/
theorem exponent_takeWhile (s : List Char) : exponent (s.takeWhile isNumeric) = exponent s := by
  match s with
  | [] => rfl
  | [c] =>
    by_cases hnumeric : isNumeric c = true <;> simp [hnumeric, exponent]
  | c :: d :: more =>
    by_cases hc : c = 'e' ∨ c = 'E'
    · have hnumeric : isNumeric c = true := by
        rcases hc with rfl | rfl <;> decide
      rw [List.takeWhile_cons_of_pos hnumeric, exponent_cons hc]
      by_cases hd : isNumeric d = true
      · rw [List.takeWhile_cons_of_pos hd, exponent_cons hc, marked_takeWhile,
          ← List.takeWhile_cons_of_pos hd, marked_takeWhile]
      · have hsign : ¬ (d = '+' ∨ d = '-') := by
          rintro (rfl | rfl) <;> exact hd (by decide)
        have hdigit : ¬ isDigit d = true := fun h => hd (isNumeric_of_isDigit _ h)
        rw [List.takeWhile_cons_of_neg hd, if_neg hsign, marked, List.takeWhile_cons_of_neg hdigit,
          if_pos rfl]
        simp [exponent]
    · rw [exponent_eq_nil hc]
      by_cases hnumeric : isNumeric c = true
      · rw [List.takeWhile_cons_of_pos hnumeric, exponent_eq_nil hc]
      · rw [List.takeWhile_cons_of_neg hnumeric]
        rfl

/-- Only the run of numeric characters at the start of a text decides on its number. -/
theorem number?_takeWhile (s : List Char) : number? (s.takeWhile isNumeric) = number? s := by
  have hdrop := dropWhile_takeWhile_of_imp isNumeric_of_isDigit s
  unfold number?
  rw [takeWhile_isDigit_numeric, hdrop]
  generalize s.takeWhile isDigit = whole
  cases s.dropWhile isDigit with
  | nil => rfl
  | cons c rest =>
    by_cases hc : c = '.'
    · subst hc
      have hnumeric : isNumeric '.' = true := by decide
      have hrest := dropWhile_takeWhile_of_imp isNumeric_of_isDigit rest
      rw [List.takeWhile_cons_of_pos hnumeric]
      cases whole with
      | nil => simp [takeWhile_isDigit_numeric]
      | cons => simp [takeWhile_isDigit_numeric, hrest, exponent_takeWhile]
    · by_cases hnumeric : isNumeric c = true
      · rw [List.takeWhile_cons_of_pos hnumeric]
        cases whole <;> simp [hc]
      · rw [List.takeWhile_cons_of_neg hnumeric]
        cases whole <;> simp [hc]

/-- What follows a number matters only as far as it is numeric. -/
theorem number?_append {u rest rest' : List Char}
    (h : rest'.takeWhile isNumeric = rest.takeWhile isNumeric) :
    number? (u ++ rest') = number? (u ++ rest) := by
  have htake : (u ++ rest').takeWhile isNumeric = (u ++ rest).takeWhile isNumeric := by
    rw [List.takeWhile_append, List.takeWhile_append, h]
  rw [← number?_takeWhile (u ++ rest'), htake, number?_takeWhile]

theorem number?_append_takeWhile (u rest : List Char) :
    number? (u ++ rest.takeWhile isNumeric) = number? (u ++ rest) :=
  number?_append (takeWhile_takeWhile_of_imp (fun _ h => h) rest)

/-! ## When less follows -/

/-- Where there is no exponent, there is none if less follows. -/
theorem exponent_eq_nil_of_isPrefix {s s' : List Char} (hs : s' <+: s) (h : exponent s = []) :
    exponent s' = [] := by
  match s' with
  | [] => rfl
  | [c] => simp [exponent]
  | c :: d :: more =>
    obtain ⟨after, rfl⟩ := hs
    by_cases hc : c = 'e' ∨ c = 'E'
    · rw [List.cons_append, List.cons_append, exponent_cons hc] at h
      rw [exponent_cons hc]
      by_cases hd : d = '+' ∨ d = '-'
      · rw [if_pos hd, marked_eq_nil_iff (by simp)] at h ⊢
        exact takeWhile_eq_nil_of_isPrefix (List.prefix_append more after) h
      · rw [if_neg hd, marked_eq_nil_iff (by simp)] at h ⊢
        exact takeWhile_eq_nil_of_isPrefix (List.prefix_append (d :: more) after) h
    · exact exponent_eq_nil hc _

/-- An exponent stays as it is when less follows. -/
theorem exponent_of_isPrefix {u s s' : List Char} (hs : s' <+: s) (h : exponent (u ++ s) = u) :
    exponent (u ++ s') = u := by
  match u with
  | [] => exact exponent_eq_nil_of_isPrefix hs h
  | [c] =>
    -- the letter alone is no exponent
    exfalso
    match s with
    | [] => simp [exponent] at h
    | d :: more =>
      by_cases hc : c = 'e' ∨ c = 'E'
      · rw [List.cons_append, List.nil_append, exponent_cons hc] at h
        split at h
        next => exact absurd (congrArg List.length h) (by unfold marked; split <;> simp)
        next => exact ((marked_eq_append_iff (List.cons_ne_nil c [])).mp h).1 rfl
      · rw [List.cons_append, exponent_eq_nil hc] at h
        cases h
  | c :: d :: w =>
    have hc : c = 'e' ∨ c = 'E' := by
      by_contra hc
      rw [List.cons_append, exponent_eq_nil hc] at h
      cases h
    rw [List.cons_append, List.cons_append, exponent_cons hc] at h ⊢
    by_cases hd : d = '+' ∨ d = '-'
    · rw [if_pos hd] at h ⊢
      obtain ⟨hw, hdigits⟩ := (marked_eq_append_iff (List.cons_ne_nil c [d])).mp h
      exact (marked_eq_append_iff (by simp)).mpr ⟨hw, takeWhile_append_of_isPrefix hs hdigits⟩
    · rw [if_neg hd] at h ⊢
      obtain ⟨hw, hdigits⟩ := (marked_eq_append_iff (List.cons_ne_nil c [])).mp h
      exact (marked_eq_append_iff (by simp)).mpr
        ⟨hw, takeWhile_append_of_isPrefix (u := d :: w) hs hdigits⟩

/-- What follows the point of a number. -/
def fraction (s : List Char) : List Char :=
  s.takeWhile isDigit ++ exponent (s.dropWhile isDigit)

/-- Digits in front of a fraction belong to it. -/
theorem fraction_append {w : List Char} (hw : ∀ c ∈ w, isDigit c = true) (s : List Char) :
    fraction (w ++ s) = w ++ fraction s := by
  rw [fraction, fraction, List.takeWhile_append_of_pos hw, List.dropWhile_append_of_pos hw,
    List.append_assoc]

theorem fraction_of_head {s : List Char} (hs : ∀ c ∈ s.head?, isDigit c = false) :
    fraction s = exponent s := by
  have htake : s.takeWhile isDigit = [] := takeWhile_append_of_head (u := []) (by simp) hs
  rw [fraction, htake, dropWhile_eq_self hs, List.nil_append]

/-- The digits at the start of a text, and what follows them. -/
theorem exists_digits (s : List Char) : ∃ w v, s = w ++ v ∧ (∀ c ∈ w, isDigit c = true) ∧
    ∀ c ∈ v.head?, isDigit c = false := by
  refine ⟨s.takeWhile isDigit, s.dropWhile isDigit, List.takeWhile_append_dropWhile.symm,
    List.all_eq_true.mp List.all_takeWhile, fun c hc => ?_⟩
  have := List.head?_dropWhile_not isDigit s
  rw [Option.mem_def] at hc
  rw [hc] at this
  simpa using this

/-- A fraction that ends at some text also ends where less follows. -/
theorem fraction_of_isPrefix {u s s' : List Char} (hs : s' <+: s) (h : fraction (u ++ s) = u) :
    fraction (u ++ s') = u := by
  obtain ⟨w, v, rfl, hw, hv⟩ := exists_digits u
  rw [List.append_assoc, fraction_append hw, List.append_cancel_left_eq] at h
  rw [List.append_assoc, fraction_append hw, List.append_cancel_left_eq]
  cases v with
  | nil =>
    rw [List.nil_append] at h ⊢
    obtain ⟨htake, -⟩ := List.append_eq_nil_iff.mp h
    have hhead : ∀ c ∈ s.head?, isDigit c = false :=
      (of_takeWhile_append (show ([] ++ s).takeWhile isDigit = [] from htake)).2
    rw [fraction_of_head hhead] at h
    rw [fraction_of_head fun c hc => hhead c (head?_of_isPrefix hs hc)]
    exact exponent_of_isPrefix (u := []) hs h
  | cons c tail =>
    rw [fraction_of_head (s := c :: tail ++ s) hv] at h
    rw [fraction_of_head (s := c :: tail ++ s') hv]
    exact exponent_of_isPrefix hs h

/-- The number after digits: with the point and the fraction, if there is a point. -/
theorem number?_digits {w : List Char} (hw : ∀ c ∈ w, isDigit c = true) (hne : w ≠ [])
    {v : List Char} (hv : ∀ c ∈ v.head?, isDigit c = false) :
    number? (w ++ v) = some (w ++ if v.head? = some '.' then '.' :: fraction v.tail else []) := by
  have htake : (w ++ v).takeWhile isDigit = w := takeWhile_append_of_head hw hv
  have hdrop : (w ++ v).dropWhile isDigit = v := by
    rw [List.dropWhile_append_of_pos hw, dropWhile_eq_self hv]
  unfold number?
  rw [htake, hdrop]
  split
  next => exact absurd rfl hne
  next => exact absurd rfl hne
  next rest _ => simp [fraction]
  next _ hnot _ =>
    cases v with
    | nil => simp
    | cons c tail =>
      have hc : c ≠ '.' := fun hc => hnot tail (by rw [hc])
      simp [hc]

/-- The number of a text without digits at its start: a point and digits, or none. -/
theorem number?_point (s : List Char) :
    number? ('.' :: s) =
      if s.takeWhile isDigit = [] then none else some ('.' :: s.takeWhile isDigit) := by
  have hdot : isDigit '.' = false := by decide
  by_cases hnil : s.takeWhile isDigit = [] <;> simp [number?, hdot, hnil]

/-- A number that starts with a point does not change where less follows. -/
theorem number?_point_of_isPrefix {u s s' : List Char} (hs : s' <+: s) :
    (number? ('.' :: (u ++ s)) = some ('.' :: u) → number? ('.' :: (u ++ s')) = some ('.' :: u)) ∧
      (number? ('.' :: (u ++ s)) = none → number? ('.' :: (u ++ s')) = none) := by
  rw [number?_point, number?_point]
  refine ⟨fun h => ?_, fun h => ?_⟩
  · split at h
    next => cases h
    next hne =>
      have hu := (List.cons.inj (Option.some.inj h)).2
      rw [hu] at hne
      rw [takeWhile_append_of_isPrefix hs hu, if_neg hne]
  · split at h
    next hnone =>
      rw [if_pos (takeWhile_eq_nil_of_isPrefix ((List.prefix_append_right_inj _).mpr hs) hnone)]
    next => cases h

/-- A number of digits does not change where less follows. -/
theorem number?_digits_of_isPrefix {w s s' : List Char} (hw : ∀ c ∈ w, isDigit c = true)
    (hne : w ≠ []) (hs : s' <+: s) (h : number? (w ++ s) = some w) :
    number? (w ++ s') = some w := by
  obtain ⟨w', v, rfl, hw', hv⟩ := exists_digits s
  have hdigits : ∀ c ∈ w ++ w', isDigit c = true := List.forall_mem_append.mpr ⟨hw, hw'⟩
  rw [← List.append_assoc, number?_digits hdigits (by simp [hne]) hv, Option.some_inj,
    List.append_assoc, List.append_right_eq_self, List.append_eq_nil_iff] at h
  obtain ⟨rfl, hpoint⟩ := h
  have hhead : ∀ c ∈ s'.head?, isDigit c = false := fun c hc => hv c (head?_of_isPrefix hs hc)
  -- a point at the start of the shorter text would be one of the longer text
  have hdot : s'.head? ≠ some '.' := by
    intro hc
    have hdot : v.head? = some '.' := head?_of_isPrefix hs hc
    simp [hdot] at hpoint
  rw [number?_digits hw hne hhead, if_neg hdot, List.append_nil]

/-- A number stays as it is when less follows. -/
theorem number?_of_isPrefix {u s s' : List Char} (hu : u ≠ []) (hs : s' <+: s) :
    (number? (u ++ s) = some u → number? (u ++ s') = some u) ∧
      (number? (u ++ s) = none → number? (u ++ s') = none) := by
  obtain ⟨w, v, rfl, hw, hv⟩ := exists_digits u
  by_cases hnil : w = []
  · -- without digits at the start only a point can start a number
    subst hnil
    rw [List.nil_append] at hu ⊢
    obtain ⟨c, more, rfl⟩ := List.exists_cons_of_ne_nil hu
    by_cases hc : c = '.'
    · subst hc
      exact number?_point_of_isPrefix hs
    · have hnone : ∀ rest, number? (c :: (more ++ rest)) = none := fun rest =>
        number?_eq_none (hv c rfl) hc
      rw [List.cons_append, List.cons_append, hnone, hnone]
      exact ⟨id, id⟩
  · have hsome : number? (w ++ v ++ s) ≠ none := by
      obtain ⟨w', v', heq, hw', hv'⟩ := exists_digits (v ++ s)
      rw [List.append_assoc, heq, ← List.append_assoc,
        number?_digits (List.forall_mem_append.mpr ⟨hw, hw'⟩) (by simp [hnil]) hv']
      exact Option.some_ne_none _
    refine ⟨fun h => ?_, fun h => absurd h hsome⟩
    cases v with
    | nil =>
      rw [List.append_nil] at h ⊢
      exact number?_digits_of_isPrefix hw hnil hs h
    | cons c more =>
      rw [List.append_assoc, number?_digits hw hnil (v := c :: more ++ s) hv, Option.some_inj,
        List.append_cancel_left_eq] at h
      rw [List.append_assoc, number?_digits hw hnil (v := c :: more ++ s') hv, Option.some_inj,
        List.append_cancel_left_eq]
      simp only [List.cons_append, List.head?_cons, Option.some_inj, List.tail_cons] at h ⊢
      by_cases hc : c = '.'
      · rw [if_pos hc] at h ⊢
        obtain ⟨hdot, hmore⟩ := List.cons.inj h
        rw [fraction_of_isPrefix hs hmore, hdot]
      · rw [if_neg hc] at h
        cases h

/-- What stands behind a number may be exchanged if no numeric characters are added. -/
theorem number?_exchange {u rest rest' : List Char} (hu : u ≠ [])
    (h : rest'.takeWhile isNumeric <+: rest.takeWhile isNumeric) :
    (number? (u ++ rest) = some u → number? (u ++ rest') = some u) ∧
      (number? (u ++ rest) = none → number? (u ++ rest') = none) := by
  rw [← number?_append_takeWhile u rest, ← number?_append_takeWhile u rest']
  exact number?_of_isPrefix hu h

end Token

end Blockflow
