import Blockflow.Proofs.Decimal.Shortest
import Blockflow.Proofs.Expression.Counting
import Blockflow.Proofs.Expression.Stripping

/-!
# Values of whole number expressions

A text of whole numbers and variables with `+`, `-`, `*` and brackets has a value once the variables
have one (`value?`). It is computed from left to right, token by token: a `Calculation` holds the
sum and the product that are being built, and what waits outside of the brackets that are open. A
text with any other operator has no value here, since languages do not agree on how tightly `&`,
`|`, `^` and the comma bind, or on what `/` and `%` yield.

Languages do not agree on zeros in front of a number either: `010` is eight, ten or an error
(`Zeros`). What is read where such numbers are refused has the same value everywhere
(`value?_of_refused`).
-/

namespace Blockflow.Expression

open Text Token

/-! ## Numbers -/

/-- What a language makes of zeros in front of a number: it refuses the number, reads it in base
eight, or ignores the zeros. -/
inductive Zeros where
  | refused | octal | ignored
deriving DecidableEq, Repr

/-- The number that digits write in a base. -/
def readBase (base : Nat) (d : List Char) : Nat :=
  d.foldl (fun n c => base * n + (digitValue? c).getD 0) 0

/-- Does a zero stand in front of a number other than zero? -/
def hasFrontZero (d : List Char) : Bool := d.head? = some '0' && d.any (· ≠ '0')

/-- The number that ASCII digits write. -/
def Zeros.read? (zeros : Zeros) (d : List Char) : Option Nat :=
  if d.isEmpty || !d.all Char.isDigit then none
  else if hasFrontZero d then
    match zeros with
    | .refused => none
    | .octal => if d.all (· < '8') then some (readBase 8 d) else none
    | .ignored => some (readDigits d)
  else some (readDigits d)

namespace Zeros

variable {zeros : Zeros} {d : List Char} {n : Nat}

/-- A number that is read where zeros in front are refused is read alike everywhere. -/
theorem read?_of_refused (h : refused.read? d = some n) (zeros : Zeros) :
    zeros.read? d = some n ∧ n = readDigits d := by
  unfold read? at h ⊢
  split at h
  next => cases h
  next hdigits =>
    rw [if_neg hdigits]
    split at h
    next => cases h
    next hfront =>
      rw [if_neg hfront]
      exact ⟨h, (Option.some.inj h).symm⟩

theorem foldl_eq_zero_iff {base : Nat} (hbase : base ≠ 0) (d : List Char) (n : Nat) :
    d.foldl (fun n c => base * n + (digitValue? c).getD 0) n = 0 ↔
      n = 0 ∧ ∀ c ∈ d, (digitValue? c).getD 0 = 0 := by
  induction d generalizing n with
  | nil => simp
  | cons c rest ih =>
    rw [List.foldl_cons, ih, Nat.add_eq_zero_iff, Nat.mul_eq_zero, List.forall_mem_cons]
    simp [hbase, and_assoc]

/-- Digits write zero in every base or in none. -/
theorem readBase_eq_zero_iff {base : Nat} (hbase : base ≠ 0) :
    readBase base d = 0 ↔ readDigits d = 0 := by
  rw [readBase, readDigits, foldl_eq_zero_iff hbase, foldl_eq_zero_iff (by decide)]

/-- Languages agree on whether a number is zero. -/
theorem read?_eq_zero_iff (h : zeros.read? d = some n) : n = 0 ↔ readDigits d = 0 := by
  unfold read? at h
  split at h
  next => cases h
  next =>
    split at h
    next =>
      cases zeros with
      | refused => cases h
      | octal =>
        simp only at h
        split at h
        next =>
          cases h
          exact readBase_eq_zero_iff (by decide)
        next => cases h
      | ignored =>
        cases h
        rfl
    next =>
      cases h
      rfl

theorem hasFrontZero_toDigits (n : Nat) : hasFrontZero (Nat.toDigits 10 n) = false := by
  rcases Nat.eq_zero_or_pos n with rfl | hpos
  · decide
  · obtain ⟨first, rest, hdigits, hfirst⟩ := Binary64.exists_lead_toDigits hpos
    simp [hasFrontZero, hdigits, hfirst]

/-- A number that is written is read as itself. -/
theorem read?_toDigits (zeros : Zeros) (n : Nat) : zeros.read? (Nat.toDigits 10 n) = some n := by
  have hdigits : (Nat.toDigits 10 n).all Char.isDigit = true :=
    List.all_eq_true.mpr fun c hc => Nat.isDigit_of_mem_toDigits (by decide) (by decide) hc
  unfold read?
  rw [if_neg (by simp [hdigits, Nat.toDigits_ne_nil]), hasFrontZero_toDigits, if_neg (by decide),
    readDigits_toDigits]

end Zeros

/-! ## Sums and products -/

/-- The values of the variables. -/
abbrev Env := String → Int

/-- Give a variable a value. -/
def Env.set (env : Env) (name : String) (n : Int) : Env := fun x => if x = name then n else env x

@[simp] theorem Env.set_self (env : Env) (name : String) (n : Int) : env.set name n name = n :=
  if_pos rfl

theorem Env.set_of_ne {name x : String} (h : x ≠ name) (env : Env) (n : Int) :
    env.set name n x = env x :=
  if_neg h

/-- What has been read of an expression: a sum and the product that is added to it next, and the
sums and products that are interrupted by open brackets, from the innermost outwards. -/
structure Calculation where
  outer : List (Int × Int)
  total : Int
  factor : Int
  wantsOperand : Bool
deriving DecidableEq, Repr

namespace Calculation

/-- Nothing has been read. -/
def start : Calculation := ⟨[], 0, 1, true⟩

/-- Multiply by a number, which may not follow another one. -/
def operand? (k : Calculation) (n : Int) : Option Calculation :=
  if k.wantsOperand then some ⟨k.outer, k.total, k.factor * n, false⟩ else none

/-- Take an operator. Before an operand, a plus and a minus are signs of it. -/
def operator? (k : Calculation) (text : List Char) : Option Calculation :=
  match k.wantsOperand, text with
  | true, ['+'] => some k
  | true, ['-'] => some ⟨k.outer, k.total, -k.factor, true⟩
  | true, ['('] => some ⟨(k.total, k.factor) :: k.outer, 0, 1, true⟩
  | false, ['+'] => some ⟨k.outer, k.total + k.factor, 1, true⟩
  | false, ['-'] => some ⟨k.outer, k.total + k.factor, -1, true⟩
  | false, ['*'] => some ⟨k.outer, k.total, k.factor, true⟩
  | false, [')'] =>
    match k.outer with
    | [] => none
    | (total, factor) :: outer => some ⟨outer, total, factor * (k.total + k.factor), false⟩
  | _, _ => none

/-- Is the name one of a variable, and no word for a constant or an operation? -/
def isVariableName (s : List Char) : Bool := !(isLogicWord s || isBoolWord s || isNullWord s)

/-- Take a token. Blanks other than spaces and tabs do not stand in every language. -/
def feed? (zeros : Zeros) (env : Env) (k : Calculation) (t : Token) : Option Calculation :=
  match t.kind with
  | .space => if t.text.all fun c => c = ' ' || c = '\t' then some k else none
  | .number => (zeros.read? t.text).bind fun n => k.operand? n
  | .name => if isVariableName t.text then k.operand? (env (String.ofList t.text)) else none
  | .op => k.operator? t.text
  | _ => none

/-- The value, if every bracket is closed and no operand is missing. -/
def result? (k : Calculation) : Option Int :=
  if k.outer.isEmpty && !k.wantsOperand then some (k.total + k.factor) else none

end Calculation

open Calculation

/-- The value of an expression of whole numbers and variables. -/
def value? (zeros : Zeros) (env : Env) (s : String) : Option Int :=
  ((tokens s.toList).foldlM (feed? zeros env) start).bind result?

example : value? .refused (fun _ => 7) "2 * -(n - 3) + 1" = some (-7) := by decide

example : value? .octal (fun _ => 0) "010" = some 8 ∧ value? .ignored (fun _ => 0) "010" = some 10 ∧
    value? .refused (fun _ => 0) "010" = none := by
  decide

example : ∀ s ∈ ["n & 1", "n, 1", "n / 2", "n 1", "(n", "n)", "n +", "f(n)", "n++", "n < 1", ""],
    value? .refused (fun _ => 5) s = none := by
  decide

/-! ## What a value depends on -/

variable {zeros : Zeros} {env env' : Env} {s : String} {n : Int}

theorem Calculation.feed?_of_refused {k k' : Calculation} {t : Token}
    (h : feed? .refused env k t = some k') (zeros : Zeros) : feed? zeros env k t = some k' := by
  unfold feed? at h ⊢
  split at h
  next => exact h
  next =>
    obtain ⟨n, hn, hk⟩ := Option.bind_eq_some_iff.mp h
    exact Option.bind_eq_some_iff.mpr ⟨n, (Zeros.read?_of_refused hn zeros).1, hk⟩
  next => exact h
  next => exact h
  next => exact h

theorem Calculation.foldlM_of_refused {ts : List Token} {k k' : Calculation}
    (h : ts.foldlM (feed? .refused env) k = some k') (zeros : Zeros) :
    ts.foldlM (feed? zeros env) k = some k' := by
  induction ts generalizing k with
  | nil => exact h
  | cons t rest ih =>
    rw [List.foldlM_cons] at h ⊢
    obtain ⟨k₁, hk₁, hrest⟩ := Option.bind_eq_some_iff.mp h
    exact Option.bind_eq_some_iff.mpr ⟨k₁, feed?_of_refused hk₁ zeros, ih hrest⟩

/-- **Without zeros in front of numbers, languages agree on the value.** -/
theorem value?_of_refused (h : value? .refused env s = some n) (zeros : Zeros) :
    value? zeros env s = some n := by
  obtain ⟨k, hk, hresult⟩ := Option.bind_eq_some_iff.mp h
  exact Option.bind_eq_some_iff.mpr ⟨k, foldlM_of_refused hk zeros, hresult⟩

/-- The value depends on the variables that occur. -/
theorem value?_congr (zeros : Zeros)
    (h : ∀ t ∈ tokens s.toList, t.kind = .name →
      env (String.ofList t.text) = env' (String.ofList t.text)) :
    value? zeros env s = value? zeros env' s := by
  have hfeed : ∀ k, ∀ t ∈ tokens s.toList, feed? zeros env k t = feed? zeros env' k t := by
    intro k t ht
    unfold feed?
    split
    next => rfl
    next => rfl
    next hkind => rw [h t ht hkind]
    next => rfl
    next => rfl
  have hrun : ∀ (ts : List Token) (k : Calculation), (∀ t ∈ ts, t ∈ tokens s.toList) →
      ts.foldlM (feed? zeros env) k = ts.foldlM (feed? zeros env') k := by
    intro ts
    induction ts with
    | nil => exact fun k _ => rfl
    | cons t rest ih =>
      intro k hts
      obtain ⟨ht, hrest⟩ := List.forall_mem_cons.mp hts
      rw [List.foldlM_cons, List.foldlM_cons, hfeed k t ht]
      exact congrArg _ (funext fun k => ih k hrest)
  rw [value?, value?, hrun _ _ fun t ht => ht]

/-! ## Values of numbers and names -/

/-- The tokens of digits with a sign or without one. -/
theorem tokens_signedDigits (negative : Bool) {d : List Char} (hne : d ≠ [])
    (hd : d.all isDigit = true) :
    tokens (signedDigits negative d) =
      if negative then [⟨.op, ['-']⟩, ⟨.number, d⟩] else [⟨.number, d⟩] := by
  cases negative with
  | false => exact tokens_digits hne hd
  | true =>
    have hleads : Leads ⟨.op, ['-']⟩ d := by
      refine leads_sign (by decide) (number?_eq_none (by decide) (by decide)) fun c hc => ?_
      have hdigit := List.all_eq_true.mp hd c (List.mem_of_mem_head? hc)
      refine not_isPair_of_not_isSymbol ?_
      by_contra hsymbol
      rw [(not_of_isSymbol (by simpa using hsymbol)).2.2.1] at hdigit
      cases hdigit
    have htokens := hleads.tokens_eq
    rw [tokens_digits hne hd] at htokens
    exact htokens

/-- A number with a sign is read where its digits are. -/
theorem value?_signedDigits {negative : Bool} {d : List Char} (zeros : Zeros) (env : Env)
    (hs : s.toList = signedDigits negative d) (hne : d ≠ []) (hd : d.all isDigit = true) :
    value? zeros env s = (zeros.read? d).map fun n => signedValue negative n := by
  rw [value?, hs, tokens_signedDigits negative hne hd]
  cases hread : zeros.read? d with
  | none => cases negative <;> simp [feed?, operator?, start, hread]
  | some n =>
    cases negative <;> simp [feed?, operator?, operand?, result?, start, hread, signedValue]

/-- A number that is written has itself for its value. -/
theorem value?_intString (zeros : Zeros) (env : Env) (n : Int) :
    value? zeros env (Json.intString n) = some n := by
  have hdigits : (Nat.toDigits 10 n.natAbs).all isDigit = true :=
    List.all_eq_true.mpr fun c hc => isDigit_of_mem_toDigits hc
  rw [value?_signedDigits zeros env (toList_intString n) Nat.toDigits_ne_nil hdigits,
    Zeros.read?_toDigits, Option.map_some, signedValue_natAbs]

theorem value?_name (zeros : Zeros) (env : Env) (h : isName s.toList = true)
    (hvariable : isVariableName s.toList = true) : value? zeros env s = some (env s) := by
  have htokens : tokens (s.toList ++ []) = _ := (leads_name h (by simp)).tokens_eq
  rw [List.append_nil] at htokens
  rw [value?, htokens]
  simp [feed?, operand?, result?, start, hvariable, tokens, scan]

/-! ## One more and one less -/

/-- The tokens of a text with a value are taken one after the other. -/
theorem Calculation.exists_feed?_of_mem {ts : List Token} {k k' : Calculation}
    (h : ts.foldlM (feed? zeros env) k = some k') {t : Token} (ht : t ∈ ts) :
    ∃ k₁ k₂, feed? zeros env k₁ t = some k₂ := by
  induction ts generalizing k with
  | nil => cases ht
  | cons u rest ih =>
    rw [List.foldlM_cons] at h
    obtain ⟨k₁, hk₁, hrest⟩ := Option.bind_eq_some_iff.mp h
    rcases List.mem_cons.mp ht with rfl | hmem
    · exact ⟨k, k₁, hk₁⟩
    · exact ih hrest hmem

theorem Calculation.isStray_of_feed? {k k' : Calculation} {t : Token}
    (h : feed? zeros env k t = some k') : t.isStray = false := by
  cases hkind : t.kind with
  | other =>
    rw [feed?, hkind] at h
    cases h
  | string | number | name | op | space => simp [isStray, hkind]

/-- **One can be added to an expression, and taken away from it, without brackets.** -/
theorem value?_append_one (hs : Stripped s.toList) (h : value? zeros env s = some n) :
    value? zeros env (s ++ " + 1") = some (n + 1) ∧
      value? zeros env (s ++ " - 1") = some (n - 1) := by
  obtain ⟨k, hk, hresult⟩ := Option.bind_eq_some_iff.mp h
  obtain ⟨outer, total, factor, wantsOperand⟩ := k
  have hclosed : ∀ t ∈ tokens s.toList, t.isStray = false := fun t ht => by
    obtain ⟨k₁, k₂, hfeed⟩ := exists_feed?_of_mem hk ht
    exact isStray_of_feed? hfeed
  have hbreak : ∀ rest : List Char, tokens (s.toList ++ ' ' :: rest) =
      tokens s.toList ++ tokens (' ' :: rest) := by
    refine fun rest => tokens_append hs hclosed fun c hc => ?_
    cases hc
    exact breaks_of_isBlank (by decide)
  unfold result? at hresult
  split at hresult
  next hend =>
    simp only [List.isEmpty_iff, Bool.and_eq_true, Bool.not_eq_true'] at hend
    obtain ⟨rfl, rfl⟩ := hend
    cases hresult
    have hone : zeros.read? ['1'] = some 1 := by cases zeros <;> decide
    have hplus : tokens [' ', '+', ' ', '1'] =
        [⟨.space, [' ']⟩, ⟨.op, ['+']⟩, ⟨.space, [' ']⟩, ⟨.number, ['1']⟩] := by decide
    have hminus : tokens [' ', '-', ' ', '1'] =
        [⟨.space, [' ']⟩, ⟨.op, ['-']⟩, ⟨.space, [' ']⟩, ⟨.number, ['1']⟩] := by decide
    constructor
    · rw [value?, String.toList_append, show " + 1".toList = [' ', '+', ' ', '1'] by decide,
        hbreak, hplus, List.foldlM_append, hk]
      simp [feed?, operator?, operand?, result?, hone]
    · rw [value?, String.toList_append, show " - 1".toList = [' ', '-', ' ', '1'] by decide,
        hbreak, hminus, List.foldlM_append, hk]
      simp [feed?, operator?, operand?, result?, hone]
      rfl
  next => cases hresult

end Blockflow.Expression
