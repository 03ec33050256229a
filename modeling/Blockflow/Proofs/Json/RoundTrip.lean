import Blockflow.Proofs.Json.Distinct
import Blockflow.Proofs.Json.Number

/-!
# Values that are written and read

A value that is written, on one line or over several, is read as it was, except that null stands
where a number is not finite (`Json.parse_write`). The text of a value is followed lexeme by lexeme:
after its last lexeme the reader holds the value, whatever lists and objects are open around it
(`Json.Storable.isRead`). This holds of the values whose numbers can be read and whose keys are not
repeated, and all values that are read from a text are such (`Json.storable_of_parse`).
-/

namespace Blockflow.Json

/-! ## Texts in quotes -/

section

variable {start here : Nat} {more : List Char} {codes : List Nat} {width : Nat}

/-- A plain character is read as itself. -/
theorem readString_plain {c : Char} (hquote : c ≠ '"') (hbackslash : c ≠ '\\')
    (hcontrol : ¬c.toNat < 0x20) (h : readString start (here + 1) more = .ok (codes, width)) :
    readString start here (c :: more) = .ok (c.toNat :: codes, width + 1) := by
  rw [readString.eq_def]
  simp only [hquote, hbackslash, hcontrol, if_false, h]
  rfl

/-- A backslash and a letter are read as the character they stand for. -/
theorem readString_simple {d e : Char} (hd : d ≠ 'u') (he : simpleEscape? d = some e)
    (h : readString start (here + 2) more = .ok (codes, width)) :
    readString start here ('\\' :: d :: more) = .ok (e.toNat :: codes, width + 2) := by
  rw [readString.eq_def]
  simp [hd, he, h, pure, Except.pure, bind, Except.bind]

/-- A backslash and four hexadecimal digits are read as the character with that number. -/
theorem readString_unicode {w x y z : Char} {n : Nat} (hmore : more ≠ [])
    (hn : hexQuad? w x y z = some n)
    (h : readString start (here + 6) more = .ok (codes, width)) :
    readString start here ('\\' :: 'u' :: w :: x :: y :: z :: more) =
      .ok (n :: codes, width + 6) := by
  obtain ⟨c, rest, rfl⟩ := List.exists_cons_of_ne_nil hmore
  rw [readString.eq_def]
  simp [hn, h, pure, Except.pure, bind, Except.bind]

theorem hexQuad?_hexDigits : ∀ k ∈ List.range 0x20,
    (match Text.hexDigits 4 k with
      | [w, x, y, z] => hexQuad? w x y z
      | _ => none) = some k := by
  decide

/-- The four digits of a control character write its code. -/
theorem exists_hexDigits {n : Nat} (hn : n < 0x20) :
    ∃ w x y z, Text.hexDigits 4 n = [w, x, y, z] ∧ hexQuad? w x y z = some n := by
  have h := hexQuad?_hexDigits n (List.mem_range.mpr hn)
  split at h
  next w x y z heq => exact ⟨w, x, y, z, heq, h⟩
  next => cases h

/-- **A character is read from its escaped form.** -/
theorem readString_escape_append {c : Char} (hmore : more ≠ [])
    (h : readString start (here + (escape c).length) more = .ok (codes, width)) :
    readString start here (escape c ++ more) =
      .ok (c.toNat :: codes, width + (escape c).length) := by
  generalize hform : escape c = form at h ⊢
  unfold escape at hform
  -- the short forms, one after the other
  iterate 7
    split at hform
    next hc =>
      subst hc hform
      exact readString_simple (by decide) rfl h
  split at hform
  next hcontrol =>
    obtain ⟨w, x, y, z, hdigits, hn⟩ := exists_hexDigits hcontrol
    rw [hdigits] at hform
    subst hform
    exact readString_unicode hmore hn h
  next hquote hbackslash _ _ _ _ _ hcontrol =>
    subst hform
    exact readString_plain hquote hbackslash hcontrol h

end

/-- An escaped text is read as its characters, up to the closing quote. -/
theorem readString_flatMap_escape (start : Nat) (rest : List Char) : ∀ (s : List Char) (here : Nat),
    readString start here (s.flatMap escape ++ '"' :: rest) =
      .ok (s.map Char.toNat, (s.flatMap escape).length + 1)
  | [], here => by
    rw [List.flatMap_nil, List.nil_append, readString.eq_def]
    rfl
  | c :: s, here => by
    have ih := readString_flatMap_escape start rest s (here + (escape c).length)
    rw [List.flatMap_cons, List.append_assoc, readString_escape_append (by simp) ih, List.map_cons,
      List.length_append]
    congr 2
    omega

/-- No character is a surrogate. -/
theorem not_isSurrogate (c : Char) : ¬(0xD800 ≤ c.toNat ∧ c.toNat < 0xE000) := by
  have hvalid : c.toNat < 0xD800 ∨ 0xDFFF < c.toNat ∧ c.toNat < 0x110000 := c.valid
  omega

/-- Characters are no halves of a pair, so nothing is joined. -/
theorem joinSurrogates_map_toNat : ∀ s : List Char, joinSurrogates (s.map Char.toNat) = s
  | [] => rfl
  | [c] => by
    have := not_isSurrogate c
    simp only [List.map_cons, List.map_nil, joinSurrogates]
    rw [if_neg (by simpa using this), Char.ofNat_toNat]
  | c :: d :: s => by
    have := not_isSurrogate c
    have ih := joinSurrogates_map_toNat (d :: s)
    simp only [List.map_cons, joinSurrogates] at ih ⊢
    rw [if_neg (by simp; omega), if_neg (by simp; omega), Char.ofNat_toNat, ih]

/-- **A text in quotes is one lexeme.** -/
theorem lexes_writeString (s : String) : Lexes (writeString s) (.str s) := by
  show Lexes ('"' :: (s.toList.flatMap escape ++ ['"'])) (.str s)
  refine lexes_of_nextLexeme rfl fun offset rest _ => ?_
  have hread := readString_flatMap_escape offset rest s.toList (offset + 1)
  simp [nextLexeme, hread, joinSurrogates_map_toNat]

theorem lexes_null : Lexes ['n', 'u', 'l', 'l'] (.scalar .null) :=
  lexes_of_nextLexeme rfl fun _ _ _ => by simp [nextLexeme, readNamed?, namedValues]

theorem lexes_true : Lexes ['t', 'r', 'u', 'e'] (.scalar (.bool true)) :=
  lexes_of_nextLexeme rfl fun _ _ _ => by simp [nextLexeme, readNamed?, namedValues]

theorem lexes_false : Lexes ['f', 'a', 'l', 's', 'e'] (.scalar (.bool false)) :=
  lexes_of_nextLexeme rfl fun _ _ _ => by simp [nextLexeme, readNamed?, namedValues]

/-! ## Runs of the reader -/

/-- Read a text from a place on. -/
def readFrom (stop offset : Nat) (text : List Char) (state : Want × List Frame) :
    Except ReadError Json :=
  readAll none stop (lex 0 offset text) state.1 state.2

/-- Reading the text leads from one state to another, if what follows does not go on like a
number. -/
def Leads (text : List Char) (state after : Want × List Frame) : Prop :=
  ∀ (stop offset : Nat) (rest : List Char), Stops rest →
    readFrom stop offset (text ++ rest) state = readFrom stop (offset + text.length) rest after

theorem Stops.append {s t : List Char} (hs : Stops s) (ht : Stops t) : Stops (s ++ t) := by
  cases s with
  | nil => exact ht
  | cons c rest => exact hs

theorem stops_cons {c : Char} {s : List Char}
    (hc : c.isDigit = false ∧ c ≠ '.' ∧ c ≠ 'e' ∧ c ≠ 'E') : Stops (c :: s) := by
  intro d hd
  cases hd
  exact hc

namespace Leads

variable {s t : List Char} {state middle after : Want × List Frame}

theorem nil : Leads [] state state := fun _ _ _ _ => rfl

/-- Two texts lead on one after the other if the second does not go on like a number. -/
theorem append (hs : Leads s state middle) (hstops : Stops t) (ht : Leads t middle after) :
    Leads (s ++ t) state after := by
  intro stop offset rest hrest
  rw [List.append_assoc, hs stop offset (t ++ rest) (hstops.append hrest), ht stop _ rest hrest,
    List.length_append, Nat.add_assoc]

/-- A lexeme is one step of the reader. -/
theorem lexeme {lexeme : Lexeme} (hs : Lexes s lexeme)
    (hstep : ∀ offset, readStep none offset lexeme state.1 state.2 = .ok after) :
    Leads s state after := by
  intro stop offset rest hrest
  rw [readFrom, hs offset rest hrest, readAll, hstep offset]
  rfl

/-- A character that is a lexeme on its own, whatever follows. -/
theorem mark {c : Char} {lexeme : Lexeme} (hc : isSpace c = false)
    (hmark : ∀ offset rest, nextLexeme offset c rest = (lexeme, 0))
    (hstep : ∀ offset, readStep none offset lexeme state.1 state.2 = .ok middle)
    (ht : Leads t middle after) : Leads (c :: t) state after := by
  intro stop offset rest hrest
  have hlex :
      lex 0 offset (c :: (t ++ rest)) = (offset, lexeme) :: lex 0 (offset + 1) (t ++ rest) := by
    rw [lex, hc]
    simp only [Bool.false_eq_true, if_false, hmark]
  rw [List.cons_append, readFrom, hlex, readAll, hstep offset]
  show readFrom stop (offset + 1) (t ++ rest) middle = _
  rw [ht stop _ rest hrest, List.length_cons, Nat.add_right_comm, Nat.add_assoc]

/-- Space between lexemes is skipped. -/
theorem space {c : Char} (hc : isSpace c = true) (ht : Leads t state after) :
    Leads (c :: t) state after := by
  intro stop offset rest hrest
  have hlex : lex 0 offset (c :: (t ++ rest)) = lex 0 (offset + 1) (t ++ rest) := by
    rw [lex, if_pos hc]
  rw [List.cons_append, readFrom, hlex]
  show readFrom stop (offset + 1) (t ++ rest) state = _
  rw [ht stop _ rest hrest, List.length_cons, Nat.add_right_comm, Nat.add_assoc]

/-- A line break with its indentation is skipped. -/
theorem newline (style : Style) (level : Nat) (ht : Leads t state after) :
    Leads (Json.newline style level ++ t) state after := by
  have hspaces : ∀ n, Leads (List.replicate n ' ' ++ t) state after := by
    intro n
    induction n with
    | zero => exact ht
    | succ n ih => exact ih.space rfl
  unfold Json.newline
  split
  · exact (hspaces _).space rfl
  · exact ht

end Leads

/-! ## Values -/

/-- The values that are read as they were written: the digits of a whole number are not too many, a
number with a fraction is one of the format, and no key is repeated. -/
inductive Storable : Json → Prop where
  | null : Storable .null
  | bool (value : Bool) : Storable (.bool value)
  | int {value : Int} : (Nat.toDigits 10 value.natAbs).length ≤ digitLimit → Storable (.int value)
  | float {value : Binary64} : value.IsProper → Storable (.float value)
  | str (value : String) : Storable (.str value)
  | arr {items : List Json} : (∀ item ∈ items, Storable item) → Storable (.arr items)
  | obj {members : Dict Json} : members.keys.Nodup → (∀ entry ∈ members, Storable entry.2) →
      Storable (.obj members)

/-- Where a value has to stand, reading its text gives the value. -/
def IsRead (value : Json) : Prop :=
  ∀ (style : Style) (level : Nat) (want : Want) (stack : List Frame),
    want = .value ∨ want = .firstItem →
    Leads (write style level value) (want, stack) (.after value.readBack, stack)

/-- Where a value may stand, any lexeme but a closing bracket starts one. -/
theorem readStep_start {lexeme : Lexeme} (hclose : lexeme ≠ .closeBracket) {want : Want}
    (hwant : want = .value ∨ want = .firstItem) (stack : List Frame) (offset : Nat) :
    readStep none offset lexeme want stack = startValue none stack offset lexeme := by
  rcases hwant with rfl | rfl
  · rfl
  · simp only [readStep]
    split
    next => exact absurd rfl hclose
    next => rfl

theorem leads_of_lexes {text : List Char} {value : Json} {lexeme : Lexeme}
    (hlexes : Lexes text lexeme)
    (hstart : ∀ stack offset, startValue none stack offset lexeme = .ok (.after value, stack))
    (hclose : lexeme ≠ .closeBracket) {want : Want} (hwant : want = .value ∨ want = .firstItem)
    (stack : List Frame) : Leads text (want, stack) (.after value, stack) := by
  refine .lexeme hlexes fun offset => ?_
  rw [readStep_start hclose hwant]
  exact hstart stack offset

/-- A text of one scalar is read as that scalar. -/
theorem leads_scalar {text : List Char} {value : Json} (hlexes : Lexes text (.scalar value))
    {want : Want}
    (hwant : want = .value ∨ want = .firstItem) (stack : List Frame) :
    Leads text (want, stack) (.after value, stack) :=
  leads_of_lexes hlexes (fun _ _ => rfl) nofun hwant stack

/-- A number of the format is read back. -/
theorem isRead_float {value : Binary64} (h : value.IsProper) : IsRead (.float value) := by
  intro style level want stack hwant
  cases value with
  | finite negative mantissa exponent => exact leads_scalar (lexes_writeFloat style h) hwant stack
  | infinite => exact leads_scalar lexes_null hwant stack
  | undefined => exact leads_scalar lexes_null hwant stack

theorem stops_newline_append (style : Style) (level : Nat) {t : List Char} (ht : Stops t) :
    Stops (newline style level ++ t) := by
  unfold newline
  split
  · exact stops_cons (by decide)
  · exact ht

theorem stops_writeItems_append (style : Style) (level : Nat) (items : List Json) {t : List Char}
    (ht : Stops t) : Stops (writeItems style level items ++ t) := by
  cases items with
  | nil => exact ht
  | cons => exact stops_cons (by decide)

theorem stops_writeMembers_append (style : Style) (level : Nat) (members : Dict Json)
    {t : List Char} (ht : Stops t) : Stops (writeMembers style level members ++ t) := by
  cases members with
  | nil => exact ht
  | cons => exact stops_cons (by decide)

/-- After an item, the remaining items of a list are read and the list is closed. -/
theorem leads_writeItems (style : Style) (level outer : Nat) (below : List Frame) :
    ∀ {items : List Json}, (∀ item ∈ items, IsRead item) → ∀ (done : List Json) (value : Json),
      Leads (writeItems style level items ++ (newline style outer ++ [']']))
        (.after value, .items done :: below)
        (.after (.arr (done ++ value :: readBackItems items)), below)
  | [], _, done, value => by
    refine Leads.newline style outer (.mark rfl (fun _ _ => rfl) (fun _ => rfl) .nil)
  | item :: rest, hitems, done, value => by
    obtain ⟨hitem, hrest⟩ := List.forall_mem_cons.mp hitems
    have ih := leads_writeItems style level outer below hrest (done ++ [value]) item.readBack
    rw [List.append_assoc] at ih
    simp only [writeItems, List.cons_append, List.append_assoc]
    refine .mark rfl (fun _ _ => rfl) (fun _ => rfl) (.newline style level ?_)
    refine (hitem style level .value _ (.inl rfl)).append ?_ ih
    exact stops_writeItems_append style level rest
      (stops_newline_append style outer (stops_cons (by decide)))

/-- A key, the separator and a value. -/
theorem leads_member {value : Json} (h : IsRead value) (style : Style) (level : Nat) {key : String}
    {done : Dict Json} {want : Want} {stack : List Frame} {t : List Char}
    {after : Want × List Frame}
    (hkey : ∀ offset, readStep none offset (.str key) want stack = .ok (.colon done key, stack))
    (hstops : Stops t) (ht : Leads t (.after value.readBack, .members done key :: stack) after) :
    Leads (writeString key ++ (separator style ++ (write style level value ++ t))) (want, stack)
      after := by
  have hvalue := (h style level .value (.members done key :: stack) (.inl rfl)).append hstops ht
  refine (Leads.lexeme (lexes_writeString key) hkey).append ?_ ?_
  · unfold separator
    split <;> exact stops_cons (by decide)
  · unfold separator
    split
    · exact .mark rfl (fun _ _ => rfl) (fun _ => rfl) (hvalue.space rfl)
    · exact .mark rfl (fun _ _ => rfl) (fun _ => rfl) hvalue

/-- After a member, the remaining members of an object are read and the object is closed. No key is
repeated, so each member takes the last place. -/
theorem leads_writeMembers (style : Style) (level outer : Nat) (below : List Frame) :
    ∀ {members : Dict Json}, (∀ entry ∈ members, IsRead entry.2) →
      ∀ (done : Dict Json) (key : String) (value : Json),
      (done.keys ++ key :: members.keys).Nodup →
      Leads (writeMembers style level members ++ (newline style outer ++ ['\x7d']))
        (.after value, .members done key :: below)
        (.after (.obj (done ++ (key, value) :: readBackMembers members)), below)
  | [], _, done, key, value, hkeys => by
    have hput : done.put key value = done ++ [(key, value)] := Dict.put_of_notMem (notMem hkeys)
    refine Leads.newline style outer (.mark rfl (fun _ _ => rfl) (fun _ => ?_) .nil)
    rw [readBackMembers, ← hput]
    rfl
  | (next, item) :: rest, hmembers, done, key, value, hkeys => by
    obtain ⟨hitem, hrest⟩ := List.forall_mem_cons.mp hmembers
    have hput : done.put key value = done ++ [(key, value)] := Dict.put_of_notMem (notMem hkeys)
    have hkeys' : (Dict.keys (done ++ [(key, value)]) ++ next :: Dict.keys rest).Nodup := by
      simpa [Dict.keys] using hkeys
    have ih := leads_writeMembers style level outer below hrest (done ++ [(key, value)]) next
      item.readBack hkeys'
    rw [List.append_assoc] at ih
    simp only [writeMembers, List.cons_append, List.append_assoc]
    refine .mark rfl (fun _ _ => rfl) (fun _ => rfl) (.newline style level ?_)
    refine leads_member hitem style level (fun _ => rfl) ?_ (hput ▸ ih)
    exact stops_writeMembers_append style level rest
      (stops_newline_append style outer (stops_cons (by decide)))
where
  notMem {done : Dict Json} {key : String} {more : List String}
      (h : (done.keys ++ key :: more).Nodup) : key ∉ done.keys := fun hmem =>
    (List.nodup_append.mp h).2.2 key hmem key List.mem_cons_self rfl

/-- A list is read back if its items are. -/
theorem isRead_arr {items : List Json} (h : ∀ item ∈ items, IsRead item) : IsRead (.arr items) := by
  intro style level want stack hwant
  have hstep : ∀ offset, readStep none offset .openBracket want stack =
      .ok (.firstItem, .items [] :: stack) := by
    intro offset
    rw [readStep_start (by nofun) hwant]
    rfl
  cases items with
  | nil =>
    exact .mark rfl (fun _ _ => rfl) hstep (.mark rfl (fun _ _ => rfl) (fun _ => rfl) .nil)
  | cons item rest =>
    obtain ⟨hitem, hrest⟩ := List.forall_mem_cons.mp h
    simp only [write, List.cons_append, List.append_assoc]
    refine .mark rfl (fun _ _ => rfl) hstep (.newline style (level + 1) ?_)
    refine (hitem style (level + 1) .firstItem _ (.inr rfl)).append ?_
      (leads_writeItems style (level + 1) level stack hrest [] item.readBack)
    exact stops_writeItems_append style (level + 1) rest
      (stops_newline_append style level (stops_cons (by decide)))

/-- An object is read back if its keys differ and its values are. -/
theorem isRead_obj {members : Dict Json} (hkeys : members.keys.Nodup)
    (h : ∀ entry ∈ members, IsRead entry.2) : IsRead (.obj members) := by
  intro style level want stack hwant
  have hstep : ∀ offset, readStep none offset .openBrace want stack = .ok (.firstKey, stack) := by
    intro offset
    rw [readStep_start (by nofun) hwant]
    rfl
  cases members with
  | nil =>
    exact .mark rfl (fun _ _ => rfl) hstep (.mark rfl (fun _ _ => rfl) (fun _ => rfl) .nil)
  | cons entry rest =>
    obtain ⟨key, value⟩ := entry
    obtain ⟨hvalue, hrest⟩ := List.forall_mem_cons.mp h
    simp only [write, List.cons_append, List.append_assoc]
    refine .mark rfl (fun _ _ => rfl) hstep (.newline style (level + 1) ?_)
    refine leads_member hvalue style (level + 1) (fun _ => rfl) ?_
      (leads_writeMembers style (level + 1) level stack hrest [] key value.readBack hkeys)
    exact stops_writeMembers_append style (level + 1) rest
      (stops_newline_append style level (stops_cons (by decide)))

/-- Reading the text of a value gives the value. -/
theorem Storable.isRead {value : Json} (h : Storable value) : IsRead value := by
  induction h with
  | null => exact fun _ _ _ stack hwant => leads_scalar lexes_null hwant stack
  | bool value =>
    intro style level want stack hwant
    cases value with
    | true => exact leads_scalar lexes_true hwant stack
    | false => exact leads_scalar lexes_false hwant stack
  | int h => exact fun _ _ _ stack hwant => leads_scalar (lexes_intText h) hwant stack
  | float h => exact isRead_float h
  | str value =>
    exact fun _ _ _ stack hwant =>
      leads_of_lexes (lexes_writeString value) (fun _ _ => rfl) nofun hwant stack
  | arr _ ih => exact isRead_arr ih
  | obj hkeys _ ih => exact isRead_obj hkeys ih

/-- A byte order mark is not the start of a value. -/
theorem readFrom_byteOrderMark (stop : Nat) (rest : List Char) :
    readFrom stop 0 ('\uFEFF' :: rest) (.value, []) = .error ⟨.value, 0⟩ := by
  have hjunk : nextLexeme 0 '\uFEFF' rest = (.junk, 0) := by
    have hnumber : readNumber? false ('\uFEFF' :: rest) = none := rfl
    simp [nextLexeme, readNamed?, namedValues, hnumber]
  rw [readFrom, lex]
  simp only [hjunk]
  rfl

/-- **A value that is written is read as it was**, in every style. -/
theorem parse_write {value : Json} (h : Storable value) (style : Style) :
    parse (write style 0 value) = .ok value.readBack := by
  generalize htext : write style 0 value = text
  have hread : readFrom text.length 0 text (.value, []) = .ok value.readBack := by
    have hleads := h.isRead style 0 .value [] (.inl rfl) text.length 0 [] (by simp [Stops])
    rw [List.append_nil, htext] at hleads
    exact hleads
  unfold parse parseWithin
  rw [if_neg ?_]
  · exact hread
  · intro hmark
    obtain ⟨rest, rfl⟩ : ∃ rest, text = '\uFEFF' :: rest := by
      cases text with
      | nil => cases hmark
      | cons c rest => exact ⟨rest, by rw [Option.some.inj hmark]⟩
    rw [readFrom_byteOrderMark] at hread
    cases hread

/-! ## Values that are read -/

/-- A number that is read can be stored. -/
theorem storable_of_readNumber? {negative : Bool} {s : List Char} {value : Json} {width : Nat}
    (h : readNumber? negative s = some (.scalar value, width)) : value.Storable := by
  rw [readNumber?_eq] at h
  unfold numberAfter at h
  split at h
  next => cases h
  next hwhole =>
    simp only at h
    split at h
    next =>
      split at h
      next n hread =>
        cases h
        refine .int ?_
        have hlength := Numeral.length_toDigits_of_read (by simpa using hwhole) hread
        cases negative <;> simpa using hlength
      next => cases h
    next =>
      cases h
      exact .float (Binary64.isProper_ofDecimal _ _ _)

/-- A named value that is read can be stored. -/
theorem storable_of_readNamed? {s : List Char} {value : Json} {width : Nat}
    (h : readNamed? s = some (value, width)) : value.Storable := by
  obtain ⟨⟨name, named⟩, hmem, hnamed⟩ := List.exists_of_findSome?_eq_some h
  simp only at hnamed
  split at hnamed
  next =>
    cases hnamed
    simp only [namedValues, List.mem_cons, List.not_mem_nil, or_false, Prod.mk.injEq] at hmem
    rcases hmem with ⟨-, rfl⟩ | ⟨-, rfl⟩ | ⟨-, rfl⟩ | ⟨-, rfl⟩ | ⟨-, rfl⟩ | ⟨-, rfl⟩
    · exact .null
    · exact .bool true
    · exact .bool false
    all_goals exact .float trivial
  next => cases hnamed

instance : Hereditary Storable where
  item h hitem := by
    cases h with
    | arr h => exact h _ hitem
  member h hentry := by
    cases h with
    | obj _ h => exact h _ hentry

theorem Storable.keys {members : Dict Json} (h : Storable (.obj members)) : members.keys.Nodup := by
  cases h with
  | obj h _ => exact h

/-- Everything that reading puts together from storable values is storable. -/
theorem kept_storable : Kept Storable where
  atom h := by
    cases h with
    | named h => exact storable_of_readNamed? h
    | number h => exact storable_of_readNumber? h
  str := .str
  noItems := .arr nofun
  append hitems hvalue := by
    refine .arr fun item hitem => ?_
    rcases List.mem_append.mp hitem with hitem | hitem
    · exact Hereditary.item hitems hitem
    · rwa [List.mem_singleton.mp hitem]
  noMembers := .obj List.nodup_nil nofun
  put hmembers hvalue := by
    refine .obj (Dict.nodup_keys_put hmembers.keys) fun entry hentry => ?_
    rcases Dict.mem_put hentry with rfl | hentry
    · exact hvalue
    · exact Hereditary.member hmembers hentry

/-- **A value that was read from a text can be written and read.** -/
theorem storable_of_parse {text : List Char} {value : Json} (h : parse text = .ok value) :
    value.Storable :=
  kept_storable.of_parse h

end Blockflow.Json
