import Blockflow.Proofs.Expression.Characters
import Blockflow.Proofs.Expression.Stripping
import Blockflow.Proofs.Store.History

/-!
# Looking a function up

A name that is looked up is tested twice: as it stands, where a name that is not safe has no
record, and without the blanks around it, where such a name is an error. The two tests agree on all
names but those with two dots in a row (`Store.checkName_of_isSafeLine`), so these are errors.
There are two more errors: a name that is too long for a file, and a record that cannot be read. In
all other cases there is an answer (`Store.IsReadable`).
-/

namespace Blockflow

/-- Word characters separate no words. -/
theorem Text.isBlank_of_isWord {c : Char} (h : isWord c = true) : isBlank c = false := by
  have hall : (blanks.all fun c => !isWord c) = true := by decide +kernel
  by_contra hblank
  have := List.all_eq_true.mp hall c (mem_blanks (by simpa using hblank))
  simp [h] at this

namespace Store

open Text

/-! ## Names that are safe as they stand -/

theorem isSafe_cons {c : Char} {rest : List Char} :
    isSafe (c :: rest) = true ↔
      isWord c = true ∧ (∀ d ∈ rest, isSafeChar d = true) ∧ rest.length ≤ 127 := by
  simp [isSafe, and_assoc]

/-- A name stays safe when something at its end is left out. -/
theorem isSafe_of_append {s after : List Char} (h : isSafe (s ++ after) = true) (hs : s ≠ []) :
    isSafe s = true := by
  obtain ⟨c, rest, rfl⟩ := List.exists_cons_of_ne_nil hs
  rw [List.cons_append, isSafe_cons] at h
  obtain ⟨hword, hchars, hlength⟩ := h
  rw [List.length_append] at hlength
  exact isSafe_cons.mpr ⟨hword, fun d hd => hchars d (List.mem_append_left _ hd), by omega⟩

theorem hasDoubleDot_cons (c : Char) (s : List Char) :
    hasDoubleDot (c :: s) = (decide (c = '.' ∧ s.head? = some '.') || hasDoubleDot s) := by
  rw [hasDoubleDot.eq_def]
  split
  next heq =>
    cases heq
    simp
  next hpair heq =>
    cases heq
    have hnot : ¬ (c = '.' ∧ s.head? = some '.') := by
      rintro ⟨rfl, hhead⟩
      obtain ⟨rest, rfl⟩ := List.head?_eq_some_iff.mp hhead
      exact hpair rest rfl rfl
    simp [hnot]
  next heq => cases heq

/-- Characters other than dots make no two dots in a row, alone or at the end of a text. -/
theorem hasDoubleDot_append_of_notMem {b : List Char} (hb : '.' ∉ b) (s : List Char) :
    hasDoubleDot (s ++ b) = hasDoubleDot s := by
  induction s with
  | nil =>
    induction b with
    | nil => rfl
    | cons c rest ih =>
      rw [List.mem_cons, not_or] at hb
      rw [List.nil_append, hasDoubleDot_cons, decide_eq_false fun h => hb.1 h.1.symm, Bool.false_or]
      exact ih hb.2
  | cons c rest ih =>
    have hhead : (rest ++ b).head? = some '.' ↔ rest.head? = some '.' := by
      cases rest with
      | nil =>
        refine ⟨fun h => absurd (List.mem_of_mem_head? h) hb, fun h => ?_⟩
        cases h
      | cons d more => rfl
    rw [List.cons_append, hasDoubleDot_cons, hasDoubleDot_cons, ih]
    simp only [hhead]

theorem dot_notMem_of_allBlank {b : List Char} (h : allBlank b = true) : '.' ∉ b := fun hdot =>
  absurd (List.all_eq_true.mp h '.' hdot) (by decide)

/-- Of a safe name nothing but blanks at its end is stripped. -/
theorem exists_strip_of_isSafe {s : List Char} (h : isSafe s = true) :
    ∃ after, s = strip s ++ after ∧ allBlank after = true ∧ strip s ≠ [] := by
  cases s with
  | nil => cases h
  | cons c rest =>
    have hc := isBlank_of_isWord (isSafe_cons.mp h).1
    obtain ⟨before, after, hs, hbefore, hafter⟩ := Token.exists_strip_append (c :: rest)
    -- a safe name starts with a word character, so there are no blanks in front
    have hnil : before = [] := by
      cases before with
      | nil => rfl
      | cons d more =>
        cases (List.cons.inj hs).1
        rw [allBlank, List.all_cons, hc] at hbefore
        cases hbefore
    rw [hnil, List.nil_append] at hs
    exact ⟨after, hs, hafter, List.ne_nil_of_mem (mem_strip List.mem_cons_self hc)⟩

theorem strip_of_isSafe {s : List Char} (h : isSafe s = true) :
    isSafe (strip s) = true ∧ hasDoubleDot (strip s) = hasDoubleDot s := by
  obtain ⟨after, hs, hafter, hne⟩ := exists_strip_of_isSafe h
  refine ⟨isSafe_of_append (hs ▸ h) hne, ?_⟩
  rw [← hasDoubleDot_append_of_notMem (dot_notMem_of_allBlank hafter) (strip s), ← hs]

/-- A line break at the end of a name is stripped like the other blanks there. -/
theorem strip_of_isSafeLine {s : List Char} (h : isSafeLine s = true) :
    isSafe (strip s) = true ∧ hasDoubleDot (strip s) = hasDoubleDot s := by
  rw [isSafeLine, Bool.or_eq_true, Bool.and_eq_true, decide_eq_true_eq] at h
  rcases h with h | ⟨hlast, h⟩
  · exact strip_of_isSafe h
  · obtain ⟨front, rfl⟩ := List.getLast?_eq_some_iff.mp hlast
    rw [List.dropLast_concat] at h
    have hbreak : allBlank ['\n'] = true := by decide
    have hnone : allBlank [] = true := rfl
    have hstrip : strip (front ++ ['\n']) = strip front := strip_append hnone hbreak
    rw [hstrip, hasDoubleDot_append_of_notMem (dot_notMem_of_allBlank hbreak)]
    exact strip_of_isSafe h

/-- **A name that is safe as it stands is accepted, unless it has two dots in a row.** -/
theorem checkName_of_isSafeLine {name : String} (h : isSafeLine name.toList = true) :
    checkName name =
      if hasDoubleDot name.toList then .error (.badName (trim name)) else .ok (trim name) := by
  obtain ⟨hsafe, hdots⟩ := strip_of_isSafeLine h
  unfold checkName
  simp only
  rw [hsafe, hdots, Bool.true_and]
  cases hasDoubleDot name.toList <;> rfl

/-! ## Answers -/

variable {s : Store SavedFunction} {name : String}

/-- What is kept under the name can be read: nothing is looked for if the name is not safe as it
stands; otherwise the name has no two dots in a row, there can be a file of that name, and the
record in it has coordinates that can be read. -/
def IsReadable (s : Store SavedFunction) (name : String) : Prop :=
  isSafeLine name.toList = true →
    hasDoubleDot name.toList = false ∧
      (fileName (trim name)).utf8ByteSize ≤ fileNameLimit ∧
      ∀ f, s.entries.get? (trim name) = some f → f.subgraph.isFinite = true

/-- What is kept under a name that is safe as it stands, as it is read from its file. -/
def storedUnder (s : Store SavedFunction) (name : String) : Option SavedFunction :=
  if isSafeLine name.toList then
    (s.entries.get? (trim name)).map fun f => { f with subgraph := f.subgraph.readBack }
  else none

theorem lookup_of_not_isSafeLine (h : isSafeLine name.toList = false) :
    s.lookup name = .ok none := by
  rw [lookup, h]
  rfl

theorem lookup_of_checkName_eq_error {e : StoreError} (h : isSafeLine name.toList = true)
    (hname : checkName name = .error e) : s.lookup name = .error e := by
  rw [lookup, if_pos h, load_of_error hname]

theorem lookup_of_long {key : String} (h : isSafeLine name.toList = true)
    (hname : checkName name = .ok key) (hlong : fileNameLimit < (fileName key).utf8ByteSize) :
    s.lookup name = .error (.longName (fileName key)) := by
  have hfile : checkFile key = .error (.longName (fileName key)) := by rw [checkFile, if_pos hlong]
  rw [lookup, if_pos h, load, find, fileKey, hname]
  simp [hfile, bind, Except.bind]

/-- Under a name that there can be a file for, the record is found that can be read there. -/
theorem lookup_eq_ok_of_fits {key : String} (h : isSafeLine name.toList = true)
    (hname : checkName name = .ok key) (hfits : (fileName key).utf8ByteSize ≤ fileNameLimit)
    {found : Option SavedFunction} :
    s.lookup name = .ok found ↔
      (∀ f, s.entries.get? key = some f → f.subgraph.isFinite = true) ∧
        found = (s.entries.get? key).map fun f => { f with subgraph := f.subgraph.readBack } := by
  have hfile : ∀ k, checkName name = .ok k → checkFile k = .ok () := by
    intro k hk
    cases hname.symm.trans hk
    rw [checkFile, if_neg (Nat.not_lt.mpr hfits)]
  rw [lookup, if_pos h, load, find, fileKey_of_ok hfile hname]
  cases hget : s.entries.get? key with
  | none => simp [hget, bind, Except.bind, pure, Except.pure, @eq_comm _ found]
  | some f =>
    have hyields := f.yields_reread
    cases hreread : Record.reread f with
    | ok f' =>
      obtain ⟨hfinite, rfl⟩ := (hyields f').mp hreread
      simp [hget, hreread, hfinite, bind, Except.bind, pure, Except.pure, @eq_comm _ found]
    | error faults =>
      have hinfinite : f.subgraph.isFinite ≠ true := by
        intro hfinite
        cases hreread.symm.trans ((hyields _).mpr ⟨hfinite, rfl⟩)
      simp [hget, hreread, hinfinite, bind, Except.bind, pure, Except.pure, throw, throwThe,
        MonadExceptOf.throw]

/-- **A name is answered if what is kept under it can be read, and then with that.** Of the names
that are not accepted, those that are not safe as they stand have no record; the others, which are
those with two dots in a row, are errors. -/
theorem lookup_eq_ok_iff (s : Store SavedFunction) (name : String) :
    (∀ found, s.lookup name = .ok found ↔ s.IsReadable name ∧ found = s.storedUnder name) ∧
    (∀ e, checkName name = .error e →
      (isSafeLine name.toList = false ∧ s.lookup name = .ok none) ∨
      (isSafeLine name.toList = true ∧ hasDoubleDot name.toList = true ∧
        s.lookup name = .error e)) := by
  -- the tests in the order in which they are made: the name as it stands, its dots, its length
  cases hline : isSafeLine name.toList with
  | false =>
    have hlookup : s.lookup name = .ok none := lookup_of_not_isSafeLine hline
    refine ⟨fun found => ?_, fun e _ => .inl ⟨rfl, hlookup⟩⟩
    simp [hlookup, IsReadable, storedUnder, hline, @eq_comm _ found]
  | true =>
    have hname := checkName_of_isSafeLine hline
    cases hdots : hasDoubleDot name.toList with
    | true =>
      rw [hdots, if_pos rfl] at hname
      have hlookup := lookup_of_checkName_eq_error (s := s) hline hname
      refine ⟨fun found => ?_, fun e he => .inr ⟨rfl, rfl, ?_⟩⟩
      · simp [hlookup, IsReadable, hline, hdots]
      · rw [← Except.error.inj (hname.symm.trans he), hlookup]
    | false =>
      rw [hdots, if_neg (by decide)] at hname
      refine ⟨fun found => ?_, fun e he => by cases hname.symm.trans he⟩
      rcases Nat.lt_or_ge fileNameLimit (fileName (trim name)).utf8ByteSize with hlong | hfits
      · simp [lookup_of_long hline hname hlong, IsReadable, hline, hlong]
      · rw [lookup_eq_ok_of_fits hline hname hfits]
        simp [IsReadable, storedUnder, hline, hdots, hfits]

/-- A function of one block, which prints a value. -/
def printer (name : String) (value : Json) (x : Binary64) : SavedFunction where
  name
  subgraph :=
    { nodes :=
        [{ id := "p", type := "print", data := [("value", value)], position := [("x", x)] }] }

/-- A store with two functions; there is an infinite number in the data of the first and in the
place of the second. -/
def shelf : Store SavedFunction where
  entries :=
    [("area", printer "area" (.float (.infinite false)) (.finite false 0 0)),
     ("far", printer "far" (.str "1") (.infinite false))]
  sorted := by
    simp only [Dict.Sorted, List.map_cons, List.map_nil]
    decide

theorem lookup_eq_ok_iff_shelf :
    shelf.lookup "area\n" = .ok (some (printer "area" .null (.finite false 0 0))) ∧
    (∀ found, shelf.lookup "far" ≠ .ok found) ∧
    (checkName "../area" = .error (.badName "../area") ∧ shelf.lookup "../area" = .ok none) ∧
    (checkName "area..2" = .error (.badName "area..2") ∧
      shelf.lookup "area..2" = .error (.badName "area..2")) := by
  have harea : trim "area\n" = "area" := by decide
  have hfar : trim "far" = "far" := by decide
  have hpath : checkName "../area" = .error (.badName "../area") := by decide
  have hdots : checkName "area..2" = .error (.badName "area..2") := by decide
  refine ⟨?_, ?_, ⟨hpath, ?_⟩, ⟨hdots, ?_⟩⟩
  · refine ((lookup_eq_ok_iff shelf "area\n").1 _).mpr ⟨fun _ => ⟨by decide, ?_, ?_⟩, ?_⟩
    · rw [harea]
      decide
    · rw [harea]
      rintro f ⟨⟩
      rfl
    · rw [storedUnder, if_pos (by decide), harea]
      rfl
  · intro found hfound
    have htells := (((lookup_eq_ok_iff shelf "far").1 found).mp hfound).1 (by decide)
    rw [hfar] at htells
    exact absurd (htells.2.2 _ rfl) (by decide)
  · rcases (lookup_eq_ok_iff shelf "../area").2 _ hpath with h | h
    · exact h.2
    · exact absurd h.1 (by decide)
  · rcases (lookup_eq_ok_iff shelf "area..2").2 _ hdots with h | h
    · exact absurd h.1 (by decide)
    · exact h.2.2

/-- It is not so that every name is answered, and that a name which is not accepted has no record: a
name with two dots in a row is an error. -/
theorem not_forall_lookup_isOk :
    ¬ ∀ (s : Store SavedFunction) (name : String),
      (∃ found, s.lookup name = .ok found) ∧
        ∀ e, checkName name = .error e → s.lookup name = .ok none := by
  intro h
  obtain ⟨found, hfound⟩ := (h {} "x..y").1
  have hname : checkName "x..y" = .error (.badName "x..y") := by decide
  cases hfound.symm.trans (lookup_of_checkName_eq_error (by decide) hname)

end Store

end Blockflow
