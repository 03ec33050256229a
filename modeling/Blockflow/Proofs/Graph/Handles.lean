import Blockflow.Graph.Basic
import Blockflow.Proofs.Expression.Literal
import Blockflow.Proofs.Json.Distinct
import Mathlib.Algebra.Group.Nat.Defs

/-!
# Handles and the roles that they stand for

A handle is compared stripped and in small letters, so neither blanks around it nor the size of its
letters matter (`Role.normalize_append`, `Role.normalize_congr`). The label of a role is one of its
handles (`Role.parse_label`), and no two roles have the same label. An index is written and read up
to a fixed number of digits, so a case with a longer index has neither a label that can be written
(`Role.writeLabel_of_not_fits`) nor a handle (`Role.fits_of_parse`). Such a case is the role of no
edge that was loaded (`Edge.writeLabel_role`).
-/

namespace Blockflow

open Text

namespace Text

/-! ## Blanks and small letters -/

/-- Only ASCII characters have small letters of their own. -/
theorem toLower_eq_or (c : Char) : c.toLower = c ∨ c ∈ (List.range 128).map Char.ofNat := by
  by_cases h : c.val ≥ 'A'.val ∧ c.val ≤ 'Z'.val
  · have hle : c.toNat ≤ 90 := h.2
    refine .inr (List.mem_map.mpr ⟨c.toNat, List.mem_range.mpr (by omega), Char.ofNat_toNat c⟩)
  · exact .inl (dif_neg h)

theorem isBlank_toLower (c : Char) : isBlank c.toLower = isBlank c := by
  rcases toLower_eq_or c with h | h
  · rw [h]
  · have hall : ((List.range 128).map Char.ofNat).all
        (fun c => isBlank c.toLower == isBlank c) = true := by
      decide
    exact beq_iff_eq.mp (List.all_eq_true.mp hall c h)

/-- Blanks are found alike in small letters. -/
theorem strip_map_toLower (s : List Char) :
    strip (s.map Char.toLower) = (strip s).map Char.toLower := by
  have hblank : isBlank ∘ Char.toLower = isBlank := funext isBlank_toLower
  rw [strip, strip, stripStart, stripStart, stripEnd, stripEnd, List.dropWhile_map, hblank,
    ← List.map_reverse, List.dropWhile_map, hblank, List.map_reverse]

end Text

namespace Role

/-! ## What is looked at -/

theorem normalize_eq (handle : String) :
    normalize handle = strip (handle.toList.map Char.toLower) :=
  (strip_map_toLower handle.toList).symm

/-- The size of letters does not matter. -/
theorem normalize_congr {handle other : String}
    (h : other.toList.map Char.toLower = handle.toList.map Char.toLower) :
    normalize other = normalize handle := by
  rw [normalize_eq, normalize_eq, h]

/-- Blanks around a handle do not matter. -/
theorem normalize_append {before handle after : String} (hbefore : allBlank before.toList = true)
    (hafter : allBlank after.toList = true) :
    normalize (before ++ handle ++ after) = normalize handle := by
  rw [normalize, normalize, String.toList_append, String.toList_append, strip_append hbefore hafter]

/-- What a handle stands for depends on its normal form only; the error names the handle itself. -/
theorem parse_eq_ok_congr {handle other : String} (h : normalize other = normalize handle)
    (role : Role) : parse (some other) = .ok role ↔ parse (some handle) = .ok role := by
  unfold parse
  simp only [Option.getD_some, h]
  split
  next => exact Iff.rfl
  next =>
    split
    next => exact Iff.rfl
    next => simp

/-! ## Labels -/

/-- The index of the role, if it has one, has no more digits than are read. -/
def Fits (role : Role) : Prop := ∀ index ∈ role.index?, index < 10 ^ digitLimit

/-- The label of a case. -/
def caseLabel (index : Nat) : List Char := ['c', 'a', 's', 'e', '-'] ++ Nat.toDigits 10 index

theorem toList_label_case (index : Nat) : (Role.case index).label.toList = caseLabel index := by
  have hnonneg : ¬ (index : Int) < 0 := by omega
  rw [label, Json.intString, Json.intText, if_neg hnonneg, String.toList_append,
    String.toList_ofList, String.toList_ofList, Int.natAbs_natCast, caseLabel]

/-- Different cases have different labels. -/
theorem caseLabel_injective {i j : Nat} (h : caseLabel i = caseLabel j) : i = j := by
  have hdigits := List.append_cancel_left h
  rw [← readDigits_toDigits i, hdigits, readDigits_toDigits]

theorem toLower_of_mem_toDigits {n : Nat} {c : Char} (h : c ∈ Nat.toDigits 10 n) :
    c.toLower = c := by
  have hdigit : c.isDigit = true := Nat.isDigit_of_mem_toDigits (by decide) (by decide) h
  rcases toLower_eq_or c with hself | hascii
  · exact hself
  · have hall : ((List.range 128).map Char.ofNat).all
        (fun c => !c.isDigit || c.toLower == c) = true := by
      decide
    simpa [hdigit] using List.all_eq_true.mp hall c hascii

/-- The label of a case is looked at as it is. -/
theorem normalize_label_case (index : Nat) :
    normalize (Role.case index).label = caseLabel index := by
  have hlower : (caseLabel index).map Char.toLower = caseLabel index := by
    rw [caseLabel, List.map_append, List.map_congr_left fun c => toLower_of_mem_toDigits,
      List.map_id']
    rfl
  have hstripped : Stripped (caseLabel index) := by
    refine ⟨fun c hc => ?_, fun c hc => ?_⟩
    · cases hc
      decide
    · rw [caseLabel, List.getLast?_append, List.getLast?_eq_some_getLast Nat.toDigits_ne_nil] at hc
      cases hc
      exact isBlank_of_isDigit (isDigit_of_mem_toDigits (List.getLast_mem _))
  rw [normalize_eq, toList_label_case, hlower, hstripped.strip_eq]

/-- No other spelling starts like a case. -/
theorem get?_spellings_case (rest : List Char) :
    spellings.get? (String.ofList (['c', 'a', 's', 'e', '-'] ++ rest)) = none := by
  have hall : ∀ entry ∈ spellings, entry.1.toList.take 5 ≠ ['c', 'a', 's', 'e', '-'] := by decide
  cases hget : spellings.get? (String.ofList (['c', 'a', 's', 'e', '-'] ++ rest)) with
  | none => rfl
  | some role =>
    refine absurd ?_ (hall _ (Dict.mem_of_get? hget))
    rw [String.toList_ofList]
    rfl

theorem caseDigits?_caseLabel (index : Nat) :
    caseDigits? (caseLabel index) = some (Nat.toDigits 10 index) := by
  have hall : (Nat.toDigits 10 index).all isDigit = true :=
    List.all_eq_true.mpr fun c => isDigit_of_mem_toDigits
  simp [caseLabel, caseDigits?, hall, Nat.toDigits_ne_nil]

/-- The label of a case is read as its index, unless that has too many digits. -/
theorem parse_label_case (index : Nat) :
    parse (some (Role.case index).label) =
      ((Numeral.read (Nat.toDigits 10 index)).map .case).mapError .badIndex := by
  unfold parse
  simp only [Option.getD_some, normalize_label_case]
  rw [caseLabel, get?_spellings_case, ← caseLabel, caseDigits?_caseLabel]

theorem fits_case {index : Nat} :
    (Role.case index).Fits ↔ (Nat.toDigits 10 index).length ≤ digitLimit := by
  rw [Nat.length_toDigits_le_iff (by decide) (by decide)]
  simp [Fits, index?]

/-- A label that fits is read as its role. -/
theorem parse_label {role : Role} (h : role.Fits) : parse (some role.label) = .ok role := by
  cases role with
  | case index =>
    have hread : Numeral.read (Nat.toDigits 10 index) = .ok index :=
      Numeral.read_eq_ok.mpr ⟨fits_case.mp h, (readDigits_toDigits index).symm⟩
    rw [parse_label_case, hread]
    rfl
  | next => decide
  | whenTrue => decide
  | whenFalse => decide
  | body => decide
  | default => decide

/-- The label of a role can be written unless its index has too many digits. -/
theorem writeLabel_of_fits {role : Role} (h : role.Fits) : role.writeLabel = .ok role.label := by
  cases role with
  | case index =>
    have hlength := fits_case.mp h
    rw [writeLabel, Numeral.write, Int.natAbs_natCast, if_neg (by omega)]
    rfl
  | _ => rfl

/-- The label of an index with too many digits cannot be written. -/
theorem writeLabel_of_not_fits {role : Role} (h : ¬ role.Fits) :
    role.writeLabel = .error .tooLong := by
  cases role with
  | case index =>
    have hlength := fits_case.not.mp h
    rw [writeLabel, Numeral.write, Int.natAbs_natCast, if_pos (by omega)]
    rfl
  | _ =>
    -- only cases have an index
    refine absurd (fun index hindex => ?_) h
    cases hindex

/-- A handle stands for a role whose index has no more digits than are read. -/
theorem fits_of_parse {handle : Option String} {role : Role} (h : parse handle = .ok role) :
    role.Fits := by
  unfold parse at h
  simp only at h
  split at h
  next spelled hget =>
    cases h
    have hall : ∀ entry ∈ spellings, entry.2.index? = none := by decide
    rw [Fits, hall _ (Dict.mem_of_get? hget)]
    intro index hindex
    cases hindex
  next =>
    split at h
    next digits hdigits =>
      cases hread : Numeral.read digits with
      | error e =>
        rw [hread] at h
        cases h
      | ok n =>
        rw [hread] at h
        cases h
        obtain ⟨hlength, rfl⟩ := Numeral.read_eq_ok.mp hread
        rintro index ⟨⟩
        exact Nat.lt_of_lt_of_le (readDigits_lt digits) (Nat.pow_le_pow_right (by decide) hlength)
    next => cases h

/-- The spelling of a role that is no case is found, that of a case is not. -/
theorem get?_spellings_label (role : Role) :
    spellings.get? role.label = if role.index?.isSome then none else some role := by
  cases role with
  | case index =>
    rw [← String.ofList_toList (s := (Role.case index).label), toList_label_case]
    exact get?_spellings_case _
  | _ => rfl

/-- Different roles have different labels. -/
theorem label_injective {role other : Role} (h : role.label = other.label) : role = other := by
  -- a label that is a spelling determines its role; the others are those of cases
  have hget := get?_spellings_label role
  rw [h, get?_spellings_label other] at hget
  cases role with
  | case i =>
    cases other with
    | case j =>
      have hlabels := congrArg String.toList h
      rw [toList_label_case, toList_label_case] at hlabels
      rw [caseLabel_injective hlabels]
    | _ => cases hget
  | _ =>
    cases other with
    | case j => cases hget
    | _ => exact (Option.some.inj hget).symm

/-- **Labels are handles of their roles.** The label of a role can be written and is read as the
role unless its index has too many digits. Then it cannot be written, and no handle stands for the
role. So a role that was read has a label that is read as the same role. Neither blanks around a
handle nor the size of its letters change what it stands for. No two roles have the same label. -/
theorem parse_canonical :
    (∀ role : Role, role.Fits →
      role.writeLabel = .ok role.label ∧ parse (some role.label) = .ok role) ∧
    (∀ role : Role, ¬ role.Fits →
      role.writeLabel = .error .tooLong ∧ ∀ handle, parse handle ≠ .ok role) ∧
    (∀ handle role, parse handle = .ok role →
      role.writeLabel = .ok role.label ∧ parse (some role.label) = .ok role) ∧
    (∀ before handle other after : String, allBlank before.toList = true →
      allBlank after.toList = true →
      other.toList.map Char.toLower = handle.toList.map Char.toLower →
      ∀ role, parse (some (before ++ other ++ after)) = .ok role ↔ parse (some handle) = .ok role) ∧
    ∀ role other : Role, role.label = other.label → role = other := by
  have hlabel : ∀ role : Role, role.Fits →
      role.writeLabel = .ok role.label ∧ parse (some role.label) = .ok role := fun role hfits =>
    ⟨writeLabel_of_fits hfits, parse_label hfits⟩
  refine ⟨hlabel, fun role hfits => ⟨writeLabel_of_not_fits hfits, fun handle h => ?_⟩,
    fun handle role h => hlabel role (fits_of_parse h), ?_, fun role other => label_injective⟩
  · exact hfits (fits_of_parse h)
  · intro before handle other after hbefore hafter hletters role
    have hnormal : normalize (before ++ other ++ after) = normalize handle :=
      (normalize_append hbefore hafter).trans (normalize_congr hletters)
    exact parse_eq_ok_congr hnormal role

/-- A case in large letters, with digits of three scripts and zeros in front. -/
theorem parse_canonical_scripts :
    parse (some "\u3000CASE-\u0660\uff107\n") = .ok (.case 7) ∧
      (Role.case 7).writeLabel = .ok "case-7" ∧ parse (some "case-7") = .ok (.case 7) := by
  have hread : parse (some "\u3000CASE-\u0660\uff107\n") = .ok (.case 7) := by decide
  have htext : (Role.case 7).label = "case-7" := by decide
  have hlabel := parse_canonical.2.2.1 _ _ hread
  rw [htext] at hlabel
  exact ⟨hread, hlabel⟩

/-- A role need not have a label that is read as the role: an index may have too many digits. -/
theorem not_forall_parse_label :
    ¬ ∀ role : Role, ∃ label, role.writeLabel = .ok label ∧ parse (some label) = .ok role := by
  intro h
  obtain ⟨label, -, hread⟩ := h (.case (10 ^ digitLimit))
  exact Nat.lt_irrefl _ (fits_of_parse hread _ rfl)

end Role

/-- A drawn edge has the role that its handle stands for. -/
theorem Edge.role_ofDrawn_eq_some_iff {d : DrawnEdge} {role : Role} :
    (Edge.ofDrawn d).role = some role ↔ Role.parse d.sourceHandle = .ok role := by
  simp only [Edge.ofDrawn]
  cases Role.parse d.sourceHandle <;> simp [Except.toOption]

/-- The role of an edge that was loaded has a label that can be written. -/
theorem Edge.writeLabel_role {d : DrawnEdge} {role : Role} (h : (Edge.ofDrawn d).role = some role) :
    role.writeLabel = .ok role.label :=
  Role.writeLabel_of_fits (Role.fits_of_parse (Edge.role_ofDrawn_eq_some_iff.mp h))

end Blockflow
