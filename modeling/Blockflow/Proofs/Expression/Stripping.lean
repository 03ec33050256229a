import Blockflow.Proofs.Expression.Cutting

/-!
# Blanks at the ends of a text

Blanks at the ends of a text make blank tokens only: stripping a text takes these tokens away and
leaves the others as they are (`Token.tokens_strip`). A text without such blanks, whose quotes are
all closed, keeps its tokens when a character follows that breaks off every token
(`Token.tokens_append`).
-/

namespace Blockflow

open Text

namespace Token

variable {t : Token}

/-- Blanks stand in no name, number, operator or escape, and open no text. -/
theorem not_inside_of_isBlank {c : Char} (h : isBlank c = true) :
    isNameChar c = false ∧ isNumeric c = false ∧ isSymbol c = false ∧ isQuote c = false ∧
      c ≠ '\\' := by
  have hall : (blanks.all fun c =>
      !isNameChar c && !isNumeric c && !isSymbol c && !isQuote c && c ≠ '\\') = true := by
    decide +kernel
  simpa [and_assoc] using List.all_eq_true.mp hall c (mem_blanks h)

theorem QuoteState.after_ne_closed {quote : Char} {state : QuoteState} {s : List Char}
    (hstate : state ≠ .closed) (hs : ∀ c ∈ s, c ≠ quote) : state.after quote s ≠ .closed := by
  induction s generalizing state with
  | nil => exact hstate
  | cons c rest ih =>
    rw [after_cons]
    refine ih ?_ fun d hd => hs d (List.mem_cons_of_mem _ hd)
    have hc : c ≠ quote := hs c List.mem_cons_self
    cases state with
    | inside =>
      rw [step, if_neg hc]
      split <;> simp
    | escaped =>
      rw [step]
      split <;> simp
    | closed => exact absurd rfl hstate
    | broken => simp [step]

/-! ## What stands behind a text -/

/-- No token goes on with the character, apart from blanks that go on with a blank. -/
structure Breaks (c : Char) : Prop where
  name : isNameChar c = false
  numeric : isNumeric c = false
  pair : ∀ d, isPair d c = false

theorem breaks_of_isBlank {c : Char} (h : isBlank c = true) : Breaks c where
  name := (not_inside_of_isBlank h).1
  numeric := (not_inside_of_isBlank h).2.1
  pair _ := not_isPair_of_not_isSymbol (not_inside_of_isBlank h).2.2.1

section

variable {b : List Char}

/-- A number does not go on behind a break. -/
theorem takeWhile_append_break (hb : ∀ c ∈ b.head?, Breaks c) (s : List Char) :
    (s ++ b).takeWhile isNumeric <+: s.takeWhile isNumeric := by
  have hnil : b.takeWhile isNumeric = [] := by
    cases b with
    | nil => rfl
    | cons c rest => rw [List.takeWhile_cons_of_neg (by simp [(hb c rfl).numeric])]
  rw [List.takeWhile_append, hnil]
  split
  next hall => simp [(List.takeWhile_prefix isNumeric).eq_of_length hall]
  next => exact List.prefix_rfl

/-- A token does not go on behind a break, unless it is a blank one. -/
theorem ends_append_break (hb : ∀ c ∈ b.head?, Breaks c) {s : List Char} (h : Ends t s)
    (hkind : s = [] → t.kind = .space → ∀ c ∈ b.head?, isBlank c = false) : Ends t (s ++ b) := by
  cases s with
  | cons c rest => exact ⟨h.name, h.op, h.space⟩
  | nil =>
    exact
      { name := fun _ d hd => (hb d hd).name
        op := fun _ c _ d hd => (hb d hd).pair c
        space := hkind rfl }

theorem isBlank_head (hb : allBlank b = true) : ∀ c ∈ b.head?, isBlank c = true := fun c hc =>
  List.all_eq_true.mp hb c (List.mem_of_mem_head? hc)

theorem closeQuote?_append_blanks (hb : allBlank b = true) {q : Char} (hq : isQuote q = true)
    {s : List Char} (h : closeQuote? q s = none) : closeQuote? q (s ++ b) = none := by
  rw [closeQuote?_eq_none_iff] at h ⊢
  rw [QuoteState.after_append]
  refine QuoteState.after_ne_closed h ?_
  rintro c hc rfl
  rw [(not_inside_of_isBlank (List.all_eq_true.mp hb c hc)).2.2.2.1] at hq
  cases hq

/-- Behind a break a text goes on with tokens of its own, if no quote before it is open or none is
closed by what follows. -/
theorem tokens_append_break (hb : ∀ c ∈ b.head?, Breaks c) : ∀ {ts : List Token},
    tokens (join ts) = ts →
      (∀ t ∈ ts.getLast?, t.kind = .space → ∀ c ∈ b.head?, isBlank c = false) →
      (∀ t ∈ ts, t.isStray = true → ∀ q s, isQuote q = true → closeQuote? q s = none →
        closeQuote? q (s ++ b) = none) →
      tokens (join ts ++ b) = ts ++ tokens b
  | [], _, _, _ => rfl
  | t :: ts, hts, hlast, hopen => by
    obtain ⟨hleads, hrest⟩ := leads_of_tokens hts
    obtain ⟨ht, hopen⟩ := List.forall_mem_cons.mp hopen
    have hkind : join ts = [] → t.kind = .space → ∀ c ∈ b.head?, isBlank c = false := by
      intro hnil
      have hnil : ts = [] := by rw [← hrest, hnil]; rfl
      exact hlast t (by simp [hnil])
    have hleads' : Leads t (join ts ++ b) :=
      hleads.exchange (takeWhile_append_break hb _) (ends_append_break hb hleads.ends hkind)
        fun hstray q hq => ht hstray q _ hq
    have hrest' : tokens (join ts ++ b) = ts ++ tokens b := by
      refine tokens_append_break hb hrest (fun u hu => hlast u ?_) hopen
      rw [List.getLast?_cons, hu]
      rfl
    have hjoin : join (t :: ts) ++ b = t.text ++ (join ts ++ b) := by simp [join]
    rw [hjoin, hleads'.tokens_eq, hrest', List.cons_append]

theorem tokens_blanks_append (hb : allBlank b = true) {s : List Char}
    (hs : ∀ c ∈ s.head?, isBlank c = false) : tokens (b ++ s) = tokens b ++ tokens s := by
  cases b with
  | nil => rfl
  | cons c rest =>
    rw [allBlank, List.all_cons, Bool.and_eq_true] at hb
    have hrest := List.all_eq_true.mp hb.2
    have hdrop : rest.dropWhile isBlank = [] := List.dropWhile_eq_nil_iff.mpr hrest
    rw [List.cons_append, tokens_of_isBlank _ hb.1, tokens_of_isBlank _ hb.1,
      takeWhile_append_of_head hrest hs, List.takeWhile_eq_self_iff.mpr hrest,
      List.dropWhile_append_of_pos hrest, dropWhile_eq_self hs, hdrop]
    rfl

theorem kind_of_mem_blanks (hb : allBlank b = true) (ht : t ∈ tokens b) : t.kind = .space := by
  by_contra hkind
  cases b with
  | nil => cases ht
  | cons c rest =>
    rw [allBlank, List.all_cons, Bool.and_eq_true] at hb
    have hdrop : rest.dropWhile isBlank = [] :=
      List.dropWhile_eq_nil_iff.mpr (List.all_eq_true.mp hb.2)
    rw [tokens_of_isBlank _ hb.1, hdrop] at ht
    rw [List.mem_singleton.mp ht] at hkind
    exact hkind rfl

end

theorem exists_strip_append (s : List Char) : ∃ before after,
    s = before ++ strip s ++ after ∧ allBlank before = true ∧ allBlank after = true := by
  have hstart := List.takeWhile_append_dropWhile (p := isBlank) (l := s)
  have hend := List.takeWhile_append_dropWhile (p := isBlank) (l := (stripStart s).reverse)
  refine ⟨s.takeWhile isBlank, ((stripStart s).reverse.takeWhile isBlank).reverse, ?_,
    List.all_takeWhile, ?_⟩
  · have hstrip : strip s ++ ((stripStart s).reverse.takeWhile isBlank).reverse = stripStart s := by
      rw [strip, stripEnd, ← List.reverse_append, hend, List.reverse_reverse]
    rw [List.append_assoc, hstrip]
    exact hstart.symm
  · rw [allBlank, List.all_reverse]
    exact List.all_takeWhile

/-- The last token of a stripped text is not a blank one, which would end in a blank. -/
theorem last_of_stripped {s : List Char} (h : Stripped s) :
    ∀ t ∈ (tokens s).getLast?, t.kind ≠ .space := by
  intro t ht hkind
  obtain ⟨ts, hts⟩ := List.getLast?_eq_some_iff.mp ht
  obtain ⟨s', hfirst⟩ := exists_isFirst_of_mem 0 s (List.mem_of_mem_getLast? ht)
  obtain ⟨c, hc⟩ := Option.isSome_iff_exists.mp (List.getLast?_isSome.mpr hfirst.ne_nil)
  have hjoin : s = join ts ++ t.text := by
    rw [← join_tokens s, hts]
    simp [join]
  have hblank := List.all_eq_true.mp (hfirst.space hkind) c (List.mem_of_mem_getLast? hc)
  rw [h.last c (by rw [hjoin, List.getLast?_append, hc]; rfl)] at hblank
  cases hblank

/-- A text without blanks at its ends, whose quotes are all closed, keeps its tokens when a break
follows. -/
theorem tokens_append {p b : List Char} (hp : Stripped p)
    (hclosed : ∀ t ∈ tokens p, t.isStray = false) (hb : ∀ c ∈ b.head?, Breaks c) :
    tokens (p ++ b) = tokens p ++ tokens b := by
  have happend := tokens_append_break hb (by rw [join_tokens])
    (fun t ht hkind => absurd hkind (last_of_stripped hp t ht)) fun t ht hstray => by
      rw [hclosed t ht] at hstray
      cases hstray
  rwa [join_tokens] at happend

/-- **The tokens of a text without the blanks at its ends** are those of the text, but for blank
ones before and after them. -/
theorem tokens_strip (s : List Char) : ∃ before after,
    tokens s = before ++ tokens (strip s) ++ after ∧ ∀ t ∈ before ++ after, t.kind = .space := by
  obtain ⟨u, v, hs, hu, hv⟩ := exists_strip_append s
  have hstripped := strip_stripped s
  have hlast := last_of_stripped hstripped
  by_cases hnil : strip s = []
  · have hblank : allBlank s = true := by
      rw [hs, hnil, List.append_nil, allBlank, List.all_append, Bool.and_eq_true]
      exact ⟨hu, hv⟩
    refine ⟨tokens s, [], by simp [hnil, tokens, scan], fun t ht => ?_⟩
    rw [List.append_nil] at ht
    exact kind_of_mem_blanks hblank ht
  · have htail : tokens (strip s ++ v) = tokens (strip s) ++ tokens v := by
      have hjoin : tokens (join (tokens (strip s))) = tokens (strip s) := by rw [join_tokens]
      have happend :=
        tokens_append_break (fun c hc => breaks_of_isBlank (isBlank_head hv c hc)) hjoin
        (fun u hu hkind => absurd hkind (hlast u hu))
        fun _ _ _ _ _ hq => closeQuote?_append_blanks hv hq
      rwa [join_tokens] at happend
    have hhead : ∀ c ∈ (strip s ++ v).head?, isBlank c = false := by
      intro c hc
      obtain ⟨d, more, hcons⟩ := List.exists_cons_of_ne_nil hnil
      rw [hcons] at hc
      exact hstripped.head c (by rw [hcons]; exact hc)
    refine ⟨tokens u, tokens v, ?_, fun t ht => ?_⟩
    · rw [List.append_assoc, ← htail, ← tokens_blanks_append hu hhead, ← List.append_assoc, ← hs]
    · rcases List.mem_append.mp ht with ht | ht
      · exact kind_of_mem_blanks hu ht
      · exact kind_of_mem_blanks hv ht

theorem solid_strip (s : List Char) : solid (strip s) = solid s := by
  obtain ⟨before, after, hs, hspace⟩ := tokens_strip s
  have hnil : ∀ {ts : List Token}, (∀ t ∈ ts, t.kind = .space) → ts.filter isSolid = [] := by
    intro ts hts
    rw [List.filter_eq_nil_iff]
    intro t ht
    simp [isSolid, hts t ht]
  rw [solid, solid, hs, List.filter_append, List.filter_append,
    hnil fun t ht => hspace t (List.mem_append_left _ ht),
    hnil fun t ht => hspace t (List.mem_append_right _ ht), List.nil_append, List.append_nil]

end Token

end Blockflow
