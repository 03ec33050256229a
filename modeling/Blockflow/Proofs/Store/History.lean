import Blockflow.Proofs.Store.Files

/-!
# What a store holds

A store is a finite map from names to records. Which record it holds under a name is told by the
steps that were taken from the empty store on: it is the record of the last step that saved one
under the name or deleted it, if that step was a saving (`Store.Kept`). The step lemma is
`Store.kept_append`, the run lemma `Store.get?_after`. What every step answers follows from it.
-/

namespace Blockflow.Store

/-! ## Names and files -/

/-- The name of a file without its extension: what stands before the last dot, unless this is the
first or the last character. -/
def stem (file : List Char) : List Char :=
  let extension := file.reverse.takeWhile (· ≠ '.')
  let dot := file.length - extension.length - 1
  if extension.length < file.length ∧ 0 < dot ∧ extension ≠ [] then file.take dot else file

/-- A name is accepted if it is safe without the blanks around it, and is kept without them. -/
theorem checkName_eq_ok {name key : String} :
    checkName name = .ok key ↔
      (isSafe (Text.strip name.toList) && !hasDoubleDot (Text.strip name.toList)) = true ∧
        key = Text.trim name := by
  unfold checkName
  simp only
  split
  next h => simp [h, Text.trim, eq_comm]
  next h => simp [h]

/-- A name that is refused is reported without the blanks around it. -/
theorem checkName_eq_error {name : String} {e : StoreError} (h : checkName name = .error e) :
    e = .badName (Text.trim name) := by
  unfold checkName at h
  simp only at h
  split at h
  next => cases h
  next => exact (Except.error.inj h).symm

/-- Blanks around a name do not count. -/
theorem checkName_congr {a b : String} (h : Text.trim a = Text.trim b) :
    checkName a = checkName b := by
  have hstrip : Text.strip a.toList = Text.strip b.toList := String.ofList_injective h
  unfold checkName
  rw [hstrip]

/-- Different keys have different files. -/
theorem fileName_injective {a b : String} (h : fileName a = fileName b) : a = b := by
  have hlist := congrArg String.toList h
  rw [fileName, fileName, String.toList_append, String.toList_append] at hlist
  exact String.toList_inj.mp (List.append_cancel_right hlist)

theorem hasDoubleDot_append : ∀ u v : List Char, hasDoubleDot (u ++ '.' :: '.' :: v) = true
  | [], _ => by simp [hasDoubleDot]
  | c :: u, v => by
    have ih := hasDoubleDot_append u v
    rw [List.cons_append, hasDoubleDot.eq_def]
    split
    next => rfl
    next heq =>
      cases heq
      exact ih
    next heq => cases heq

/-- The stem of a file is the key that it was named for. -/
theorem stem_fileName {key : String} (h : key.toList ≠ []) :
    stem (fileName key).toList = key.toList := by
  have hfile : (fileName key).toList = key.toList ++ ['.', 'j', 's', 'o', 'n'] := by
    rw [fileName, String.toList_append]
    rfl
  have hlength : 0 < key.toList.length := List.length_pos_iff.mpr h
  have hextension : (key.toList ++ ['.', 'j', 's', 'o', 'n']).reverse.takeWhile (· ≠ '.') =
      ['n', 'o', 's', 'j'] := by
    rw [List.reverse_append]
    rfl
  rw [hfile, stem, hextension]
  simp only [List.length_append, List.length_cons, List.length_nil]
  rw [if_pos ⟨by omega, by omega, by simp⟩]
  exact List.take_left' (by omega)

/-- **A name that is accepted is one of a file in the directory of the store.** -/
theorem checkName_isLocal {name key : String} (h : checkName name = .ok key) :
    stem (fileName key).toList = key.toList ∧ '/' ∉ key.toList ∧
      (∀ u v, key.toList ≠ u ++ ['.', '.'] ++ v) ∧ key.toList.head? ≠ some '.' := by
  obtain ⟨hcheck, hkey⟩ := checkName_eq_ok.mp h
  rw [Bool.and_eq_true, Bool.not_eq_true'] at hcheck
  obtain ⟨hsafe, hdots⟩ := hcheck
  have hlist : key.toList = Text.strip name.toList := by rw [hkey, Text.trim, String.toList_ofList]
  rw [← hlist] at hsafe hdots
  generalize hchars : key.toList = chars at hsafe hdots ⊢
  cases chars with
  | nil => cases hsafe
  | cons c rest =>
    simp only [isSafe, Bool.and_eq_true, List.all_eq_true, decide_eq_true_eq] at hsafe
    obtain ⟨⟨hword, hrest⟩, -⟩ := hsafe
    refine ⟨?_, ?_, ?_, ?_⟩
    · rw [← hchars]
      exact stem_fileName (by rw [hchars]; exact List.cons_ne_nil c rest)
    · intro hslash
      rcases List.mem_cons.mp hslash with rfl | hslash
      · cases hword
      · cases hrest '/' hslash
    · intro u v heq
      rw [heq, List.append_assoc] at hdots
      have hdouble := hasDoubleDot_append u v
      exact Bool.false_ne_true (hdots.symm.trans hdouble)
    · intro hdot
      cases hdot
      cases hword

/-! ## Steps -/

variable {ρ : Type}

/-- What can be done with a store. -/
inductive Step (ρ : Type) where
  | save (record : ρ)
  | load (name : String)
  | delete (name : String)
  | list

/-- What a store answers. -/
inductive Answer (ρ : Type) where
  | saved
  | loaded (found : Option ρ)
  | deleted (found : Bool)
  | listed (names : List String)
  | refused (error : StoreError)

variable [Record ρ]

/-- Take a step. A step that is refused changes nothing. -/
def perform (s : Store ρ) : Step ρ → Answer ρ × Store ρ
  | .save record =>
    match s.save record with
    | .ok s' => (.saved, s')
    | .error e => (.refused e, s)
  | .load name =>
    match s.load name with
    | .ok found => (.loaded found, s)
    | .error e => (.refused e, s)
  | .delete name =>
    match s.delete name with
    | .ok (found, s') => (.deleted found, s')
    | .error e => (.refused e, s)
  | .list => (.listed s.names, s)

/-- The store after some steps, from the empty store on. -/
def after (steps : List (Step ρ)) : Store ρ := steps.foldl (fun s step => (s.perform step).2) {}

theorem after_append (past : List (Step ρ)) (step : Step ρ) :
    after (past ++ [step]) = ((after past).perform step).2 := by
  rw [after, List.foldl_append]
  rfl

/-- The record can be saved, and is kept under this key then. -/
def KeptAt (record : ρ) (key : String) : Prop :=
  checkName (Record.name record) = .ok key ∧ (Record.diagram record).isWritable = true

/-- What is assumed of a step: a file can have this name, and a record that is written is read as it
was. -/
def Step.Fits : Step ρ → Prop
  | .save record =>
    (∀ key, checkName (Record.name record) = .ok key → checkFile key = .ok ()) ∧
      ∀ key, KeptAt record key → Record.reread record = .ok record
  | .load name | .delete name => ∀ key, checkName name = .ok key → checkFile key = .ok ()
  | .list => True

/-- The step saves a record under this key, or deletes it. -/
def Step.Touches (key : String) : Step ρ → Prop
  | .save record => KeptAt record key
  | .delete name => checkName name = .ok key
  | .load _ | .list => False

/-- The record was saved under this key, and since then no other was, nor was it deleted. -/
def Kept (past : List (Step ρ)) (key : String) (record : ρ) : Prop :=
  ∃ before since, past = before ++ .save record :: since ∧
    KeptAt record key ∧ ∀ step ∈ since, ¬step.Touches key

theorem not_kept_nil (key : String) (record : ρ) : ¬Kept [] key record := by
  rintro ⟨before, since, h, -⟩
  simp at h

/-- One step further, a record is kept if the step saved it, or if it was kept and the step is about
other records. -/
theorem kept_append {past : List (Step ρ)} {step : Step ρ} {key : String} {record : ρ} :
    Kept (past ++ [step]) key record ↔
      (step = .save record ∧ KeptAt record key) ∨
        (¬step.Touches key ∧ Kept past key record) := by
  constructor
  · rintro ⟨before, since, hpast, hkey, hsince⟩
    rcases List.eq_nil_or_concat since with rfl | ⟨since, last, rfl⟩
    · have := List.append_inj_right' hpast rfl
      exact .inl ⟨(List.cons.inj this).1, hkey⟩
    · have hpast : past ++ [step] = (before ++ .save record :: since) ++ [last] := by
        rw [hpast]
        simp
      obtain ⟨rfl, hlast⟩ := List.append_inj' hpast rfl
      cases hlast
      refine .inr ⟨hsince step (by simp), before, since, rfl, hkey, fun step' hstep' => ?_⟩
      exact hsince step' (by simp [hstep'])
  · rintro (⟨rfl, hkey⟩ | ⟨htouches, before, since, rfl, hkey, hsince⟩)
    · exact ⟨past, [], rfl, hkey, fun _ h => absurd h List.not_mem_nil⟩
    · refine ⟨before, since ++ [step], by simp, hkey, fun step' hstep' => ?_⟩
      rcases List.mem_append.mp hstep' with hstep' | hstep'
      · exact hsince step' hstep'
      · rwa [List.mem_singleton.mp hstep']

section

variable {s : Store ρ} {name : String}

/-- A record with a name that is refused is not saved. -/
theorem save_of_error {record : ρ} {e : StoreError}
    (h : checkName (Record.name record) = .error e) : s.save record = .error e := by
  rw [save, h]
  rfl

/-- A record that is too deep to be written is not saved. -/
theorem save_of_deep {record : ρ} {key : String} (h : checkName (Record.name record) = .ok key)
    (hdeep : (Record.diagram record).isWritable = false) : s.save record = .error .tooDeep := by
  rw [save, h]
  simp [hdeep, bind, Except.bind, throw, throwThe, MonadExceptOf.throw]

/-- A record that can be saved is put under its key. -/
theorem save_of_keptAt {record : ρ} {key : String} (hfits : (Step.save record).Fits)
    (h : KeptAt record key) :
    s.save record = .ok { entries := s.entries.insert key record, sorted := s.sorted.insert } := by
  rw [save, h.1]
  simp [h.2, hfits.1 key h.1, bind, Except.bind, pure, Except.pure]

/-- A record that cannot be kept is refused. -/
theorem perform_save_of_not {record : ρ} (h : ∀ key, ¬KeptAt record key) :
    (s.perform (.save record)).2 = s := by
  cases hname : checkName (Record.name record) with
  | error e => rw [perform, save_of_error hname]
  | ok key =>
    have hdeep : (Record.diagram record).isWritable = false :=
      Bool.eq_false_iff.mpr fun hwritable => h key ⟨hname, hwritable⟩
    rw [perform, save_of_deep hname hdeep]

omit [Record ρ] in
theorem fileKey_of_error {e : StoreError} (h : checkName name = .error e) :
    fileKey name = .error e := by
  rw [fileKey, h]
  rfl

omit [Record ρ] in
theorem fileKey_of_ok {key : String}
    (hfile : ∀ key, checkName name = .ok key → checkFile key = .ok ())
    (h : checkName name = .ok key) : fileKey name = .ok key := by
  rw [fileKey, h]
  simp [hfile key h, bind, Except.bind, pure, Except.pure]

omit [Record ρ] in
theorem delete_of_error {e : StoreError} (h : checkName name = .error e) :
    s.delete name = .error e := by
  rw [delete, fileKey_of_error h]
  rfl

omit [Record ρ] in
/-- Deleting says whether there was a record, and there is none afterwards. -/
theorem delete_of_ok {key : String}
    (hfile : ∀ key, checkName name = .ok key → checkFile key = .ok ())
    (h : checkName name = .ok key) :
    s.delete name =
      .ok (s.entries.has key, { entries := s.entries.erase key, sorted := s.sorted.erase }) := by
  rw [delete, fileKey_of_ok hfile h]
  rfl

theorem load_of_error {e : StoreError} (h : checkName name = .error e) :
    s.load name = .error e := by
  rw [load, find, fileKey_of_error h]
  rfl

/-- Loading finds what was put under the key. -/
theorem load_of_ok {key : String} (hfile : ∀ key, checkName name = .ok key → checkFile key = .ok ())
    (h : checkName name = .ok key)
    (hreread : ∀ record, s.entries.get? key = some record → Record.reread record = .ok record) :
    s.load name = .ok (s.entries.get? key) := by
  rw [load, find, fileKey_of_ok hfile h]
  cases hget : s.entries.get? key with
  | none => simp [hget, bind, Except.bind, pure, Except.pure]
  | some record => simp [hget, hreread record hget, bind, Except.bind, pure, Except.pure]

/-- What a step does to the record under a key. -/
theorem get?_perform {step : Step ρ} (hfits : step.Fits) {key : String} {record : ρ} :
    (s.perform step).2.entries.get? key = some record ↔
      (step = .save record ∧ KeptAt record key) ∨
        (¬step.Touches key ∧ s.entries.get? key = some record) := by
  cases step with
  | save saved =>
    simp only [Step.Touches, Step.save.injEq]
    by_cases hkept : ∃ k, KeptAt saved k
    · obtain ⟨k, hk⟩ := hkept
      rw [perform, save_of_keptAt hfits hk]
      simp only [Dict.get?_insert]
      by_cases hkey : k = key
      · subst hkey
        simp only [if_true, Option.some.injEq, hk, not_true, false_and, or_false]
        exact ⟨fun h => ⟨h, h ▸ hk⟩, fun h => h.1⟩
      · have hother : ¬KeptAt saved key := fun h =>
          hkey (Except.ok.inj (hk.1.symm.trans h.1))
        simp only [if_neg hkey, hother, not_false_eq_true, true_and]
        constructor
        · exact .inr
        · rintro (⟨rfl, h⟩ | h)
          · exact absurd h hother
          · exact h
    · have hnot : ∀ k, ¬KeptAt saved k := not_exists.mp hkept
      rw [perform_save_of_not hnot]
      constructor
      · exact fun h => .inr ⟨hnot key, h⟩
      · rintro (⟨rfl, h⟩ | h)
        · exact absurd h (hnot key)
        · exact h.2
  | delete name =>
    cases hname : checkName name with
    | error e =>
      rw [perform, delete_of_error hname]
      simp [Step.Touches, hname]
    | ok k =>
      rw [perform, delete_of_ok hfits hname]
      by_cases hk : k = key <;> simp [Step.Touches, hname, hk]
  | load name =>
    have hstate : (s.perform (.load name)).2 = s := by
      rw [perform]
      split <;> rfl
    rw [hstate]
    simp [Step.Touches]
  | list => simp [perform, Step.Touches]

end

/-- **The store holds what is kept.** -/
theorem get?_after {past : List (Step ρ)} (hfits : ∀ step ∈ past, step.Fits) {key : String}
    {record : ρ} : (after past).entries.get? key = some record ↔ Kept past key record := by
  induction past using List.reverseRecOn with
  | nil => exact ⟨fun h => (nomatch h), fun h => absurd h (not_kept_nil key record)⟩
  | append_singleton past step ih =>
    have hpast : ∀ step ∈ past, step.Fits := fun st hst => hfits st (List.mem_append_left _ hst)
    rw [after_append, get?_perform (hfits step (by simp)), kept_append, ih hpast]

/-! ## Answers -/

/-- What a step answers after some other steps. -/
def Answers (past : List (Step ρ)) : Step ρ → Answer ρ → Prop
  | .save record, answer =>
    match checkName (Record.name record) with
    | .ok _ =>
      answer = if (Record.diagram record).isWritable then .saved else .refused .tooDeep
    | .error _ => answer = .refused (.badName (Text.trim (Record.name record)))
  | .load name, answer =>
    match checkName name with
    | .ok key =>
      ∃ found, answer = .loaded found ∧ ∀ record, found = some record ↔ Kept past key record
    | .error _ => answer = .refused (.badName (Text.trim name))
  | .delete name, answer =>
    match checkName name with
    | .ok key => ∃ found, answer = .deleted found ∧ (found = true ↔ ∃ record, Kept past key record)
    | .error _ => answer = .refused (.badName (Text.trim name))
  | .list, answer =>
    ∃ names, answer = .listed names ∧ names.Pairwise (· < ·) ∧
      ∀ key, key ∈ names ↔ ∃ record, Kept past key record

/-- A record that is kept is read as it was saved. -/
theorem Kept.reread_eq {past : List (Step ρ)} {key : String} {record : ρ}
    (h : Kept past key record) (hfits : ∀ step ∈ past, step.Fits) :
    Record.reread record = .ok record := by
  obtain ⟨before, since, rfl, hkept, -⟩ := h
  exact (hfits (.save record) (by simp)).2 key hkept

omit [Record ρ] in
/-- The names are those under which there is a record. -/
theorem mem_names {s : Store ρ} {key : String} :
    key ∈ s.names ↔ ∃ record, s.entries.get? key = some record := by
  have hnodup : s.entries.keys.Nodup :=
    List.Pairwise.imp (fun {a b} (h : a < b) => (Std.ne_of_lt h : a ≠ b)) s.sorted
  constructor
  · intro h
    obtain ⟨⟨k, record⟩, hentry, rfl⟩ := List.mem_map.mp h
    exact ⟨record, Dict.get?_of_mem hnodup hentry⟩
  · rintro ⟨record, h⟩
    exact List.mem_map.mpr ⟨(key, record), Dict.mem_of_get? h, rfl⟩

/-- A step answers what the steps before it say. -/
theorem answers_perform {past : List (Step ρ)} {step : Step ρ} (hpast : ∀ step ∈ past, step.Fits)
    (hstep : step.Fits) : Answers past step ((after past).perform step).1 := by
  cases step with
  | save record =>
    cases hname : checkName (Record.name record) with
    | error e => simp only [Answers, hname, perform, save_of_error hname, checkName_eq_error hname]
    | ok key =>
      by_cases hwritable : (Record.diagram record).isWritable = true
      · simp only [Answers, hname, perform, save_of_keptAt hstep ⟨hname, hwritable⟩, hwritable,
          if_true]
      · have hdeep := Bool.eq_false_iff.mpr hwritable
        simp only [Answers, hname, perform, save_of_deep hname hdeep, hdeep, Bool.false_eq_true,
          if_false]
  | load name =>
    cases hname : checkName name with
    | error e => simp only [Answers, hname, perform, load_of_error hname, checkName_eq_error hname]
    | ok key =>
      have hload := load_of_ok hstep hname fun record hrecord =>
        ((get?_after hpast).mp hrecord).reread_eq hpast
      simp only [Answers, hname, perform, hload]
      exact ⟨_, rfl, fun record => get?_after hpast⟩
  | delete name =>
    cases hname : checkName name with
    | error e =>
      simp only [Answers, hname, perform, delete_of_error hname, checkName_eq_error hname]
    | ok key =>
      simp only [Answers, hname, perform, delete_of_ok hstep hname]
      refine ⟨_, rfl, ?_⟩
      rw [Dict.has, Option.isSome_iff_exists]
      exact exists_congr fun record => get?_after hpast
  | list =>
    refine ⟨_, rfl, (after past).sorted, fun key => ?_⟩
    rw [mem_names]
    exact exists_congr fun record => get?_after hpast

/-- A step that is refused leaves the store as it was. -/
theorem perform_of_refused {s : Store ρ} {step : Step ρ} {e : StoreError}
    (h : (s.perform step).1 = .refused e) : (s.perform step).2 = s := by
  unfold perform at h ⊢
  split at h
  next =>
    split at h
    next => cases h
    next => rfl
  next =>
    split at h
    next => cases h
    next => rfl
  next =>
    split at h
    next => cases h
    next => rfl
  next => cases h

/-- **A store is a finite map.** After every history, the store holds under each key the record that
is kept, and every step answers by what is kept; a step that is refused changes nothing. Two names
that are accepted have the same file if and only if they differ in the blanks around them only, and
these do not decide whether a name is accepted. The file is in the directory of the store, and its
stem is the name without these blanks. -/
theorem answers_after (past : List (Step ρ)) (step : Step ρ)
    (hfits : ∀ st ∈ past ++ [step], st.Fits) :
    (∀ key record, (after past).entries.get? key = some record ↔ Kept past key record) ∧
    Answers past step ((after past).perform step).1 ∧
    (∀ e, ((after past).perform step).1 = .refused e → after (past ++ [step]) = after past) ∧
    (∀ a b, Text.trim a = Text.trim b → checkName a = checkName b) ∧
    (∀ a b ka kb, checkName a = .ok ka → checkName b = .ok kb →
      (fileName ka = fileName kb ↔ Text.trim a = Text.trim b)) ∧
    (∀ name key, checkName name = .ok key → key = Text.trim name ∧
      stem (fileName key).toList = key.toList ∧ '/' ∉ key.toList ∧
      (∀ u v, key.toList ≠ u ++ ['.', '.'] ++ v) ∧ key.toList.head? ≠ some '.') := by
  have hpast : ∀ st ∈ past, st.Fits := fun st hst => hfits st (List.mem_append_left _ hst)
  refine ⟨fun key record => get?_after hpast, answers_perform hpast (hfits step (by simp)), ?_,
    fun a b => checkName_congr, ?_, ?_⟩
  · intro e he
    rw [after_append, perform_of_refused he]
  · intro a b ka kb ha hb
    rw [(checkName_eq_ok.mp ha).2, (checkName_eq_ok.mp hb).2]
    exact ⟨fileName_injective, congrArg fileName⟩
  · intro name key h
    exact ⟨(checkName_eq_ok.mp h).2, checkName_isLocal h⟩

/-- Two names of one project, a name that is refused, and a project that is deleted. -/
def aliasedSteps : List (Step SavedProject) :=
  [.save { name := "b. c" }, .save { name := "a" }, .save { name := "../a" }, .delete "\u3000a\n",
    .save { name := " b. c\t", code := [("python", "pass\n")] }, .load "a"]

/-- Names that differ only in the blanks around them name the same record. -/
theorem answers_after_aliased :
    (∀ st ∈ aliasedSteps ++ [.load "b. c\u2003"], st.Fits) ∧
    Kept aliasedSteps "b. c" { name := " b. c\t", code := [("python", "pass\n")] } ∧
    ((after aliasedSteps).perform (.load "b. c\u2003")).1 =
      .loaded (some { name := " b. c\t", code := [("python", "pass\n")] }) := by
  have hfile : ∀ {name : String}, checkFile (Text.trim name) = .ok () →
      ∀ key, checkName name = .ok key → checkFile key = .ok () := by
    intro name hname key hkey
    rw [(checkName_eq_ok.mp hkey).2]
    exact hname
  have hfits : ∀ st ∈ aliasedSteps ++ [.load "b. c\u2003"], st.Fits := by
    simp only [aliasedSteps, List.cons_append, List.nil_append, List.forall_mem_cons]
    refine ⟨?_, ?_, ?_, ?_, ?_, ?_, ?_, nofun⟩
    · exact ⟨hfile (by decide), fun _ _ => SavedProject.reread_of_isFinite rfl⟩
    · exact ⟨hfile (by decide), fun _ _ => SavedProject.reread_of_isFinite rfl⟩
    · exact ⟨hfile (by decide), fun _ _ => SavedProject.reread_of_isFinite rfl⟩
    · exact hfile (by decide)
    · exact ⟨hfile (by decide), fun _ _ => SavedProject.reread_of_isFinite rfl⟩
    · exact hfile (by decide)
    · exact hfile (by decide)
  have hkept : Kept aliasedSteps "b. c" { name := " b. c\t", code := [("python", "pass\n")] } :=
    ⟨[.save { name := "b. c" }, .save { name := "a" }, .save { name := "../a" },
      .delete "\u3000a\n"], [.load "a"], rfl, ⟨by decide, rfl⟩, by simp [Step.Touches]⟩
  have hname : checkName "b. c\u2003" = .ok "b. c" := by decide
  have hanswers := (answers_after aliasedSteps (.load "b. c\u2003") hfits).2.1
  simp only [Answers, hname] at hanswers
  obtain ⟨found, hloaded, hfound⟩ := hanswers
  rw [(hfound _).mpr hkept] at hloaded
  exact ⟨hfits, hkept, hloaded⟩

end Blockflow.Store
