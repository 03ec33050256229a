import Blockflow.Proofs.Expression.Requoting
import Blockflow.Proofs.Expression.Respelling
import Blockflow.Proofs.Expression.Stretches

/-!
# Texts with other quotes, respelled

A spelling with signs also puts some texts in double quotes. If every quote is closed, and each of
these texts stays one text, then nothing else changes when they are exchanged first
(`Expression.tokens_requote`), and respelling the result is respelling the text
(`Expression.spellTokens_requote`). So the respelled text has the tokens of the text, each with its
other quotes or exchanged by the table of the spelling
(`Expression.solid_spellChars_of_isPortable`).
-/

namespace Blockflow.Expression

open Text Token

/-! ## Other quotes -/

/-- The token with the quotes that spellings with signs give it. -/
def requote (t : Token) : Token :=
  if isRequoted t then ⟨.string, toDoubleQuoted t.text⟩ else t

/-- Can the token be written with signs? It is no open quote, and with other quotes it is one
text. -/
def isWritable (t : Token) : Bool :=
  !t.isStray && (!isRequoted t || tokens (requote t).text = [requote t])

/-- Can the tokens be written with signs, one by one? -/
def isPortable (ts : List Token) : Bool := ts.all isWritable && isRespellable (ts.map requote)

/-- A token in a spelling with signs. -/
def Spelling.rewritten (spelling : Spelling) (t : Token) : Token := spelling.respelled (requote t)

variable {spelling : Spelling} {t : Token} {ts : List Token}

theorem requote_of_not (h : isRequoted t = false) : requote t = t := by simp [requote, h]

/-- The quotes are double ones in place of single ones. -/
theorem requote_eq (h : isRequoted t = true) : ∃ more more', t = ⟨.string, '\x27' :: more⟩ ∧
    requote t = ⟨.string, '"' :: more'⟩ := by
  obtain ⟨kind, text⟩ := t
  have hparts := h
  simp only [isRequoted, Bool.and_eq_true, decide_eq_true_eq] at hparts
  obtain ⟨⟨rfl, hhead⟩, -⟩ := hparts
  obtain ⟨more, rfl⟩ := List.head?_eq_some_iff.mp hhead
  exact ⟨more, _, rfl, by rw [requote, if_pos h]; rfl⟩

@[simp] theorem kind_requote (t : Token) : (requote t).kind = t.kind := by
  cases h : isRequoted t with
  | false => rw [requote_of_not h]
  | true =>
    obtain ⟨more, more', rfl, hrequote⟩ := requote_eq h
    rw [hrequote]

theorem depthChange_requote (t : Token) : (requote t).depthChange = t.depthChange := by
  cases h : isRequoted t with
  | false => rw [requote_of_not h]
  | true =>
    obtain ⟨more, more', rfl, hrequote⟩ := requote_eq h
    rw [hrequote]
    rfl

theorem depthChange_rewritten (spelling : Spelling) (t : Token) :
    (spelling.rewritten t).depthChange = t.depthChange := by
  rw [Spelling.rewritten, ← depthChange_requote t]
  rcases spelling.respelled_cases (requote t) with h | h
  · rw [h]
  · have hall : ∀ entry ∈ spelling.table, entry.2.depthChange = entry.1.depthChange := by
      cases spelling <;> decide
    exact hall _ h

/-! ## Cutting a text with other quotes -/

theorem takeWhile_requote (ts : List Token) :
    (join (ts.map requote)).takeWhile isNumeric = (join ts).takeWhile isNumeric := by
  induction ts with
  | nil => rfl
  | cons t rest ih =>
    have hjoin : join ((t :: rest).map requote) = (requote t).text ++ join (rest.map requote) := rfl
    have hjoin' : join (t :: rest) = t.text ++ join rest := rfl
    rw [hjoin, hjoin']
    cases h : isRequoted t with
    | false => rw [requote_of_not h, List.takeWhile_append, List.takeWhile_append, ih]
    | true =>
      obtain ⟨more, more', rfl, hrequote⟩ := requote_eq h
      rw [hrequote]
      rfl

theorem ends_requote {rest : List Token} (hrest : tokens (join rest) = rest)
    (h : Ends t (join rest)) : Ends t (join (rest.map requote)) := by
  cases rest with
  | nil => exact h
  | cons u more =>
    obtain ⟨⟨c, text, hu, -⟩, -⟩ := leads_of_tokens hrest
    have hjoin : join ((u :: more).map requote) = (requote u).text ++ join (more.map requote) := rfl
    rw [hjoin]
    cases hquote : isRequoted u with
    | false =>
      have hjoin' : join (u :: more) = c :: (text ++ join more) := by simp [join, hu]
      rw [hjoin'] at h
      rw [requote_of_not hquote, hu]
      exact ⟨h.name, h.op, h.space⟩
    | true =>
      obtain ⟨_, _, -, hrequote⟩ := requote_eq hquote
      rw [hrequote]
      exact
        { name := fun _ d hd => by cases hd; decide
          op := fun _ c _ d hd => by cases hd; exact not_isPair_of_not_isSymbol (by decide)
          space := fun _ d hd => by cases hd; decide }

theorem leads_requote {rest : List Token} (h : Leads t (join rest)) (ht : isWritable t = true)
    (hrest : tokens (join rest) = rest) : Leads (requote t) (join (rest.map requote)) := by
  rw [isWritable, Bool.and_eq_true, Bool.not_eq_true'] at ht
  cases hquote : isRequoted t with
  | false =>
    rw [requote_of_not hquote]
    refine h.exchange ?_ (ends_requote hrest h.ends) fun hstray => ?_
    · simp only [takeWhile_requote, List.prefix_rfl]
    · rw [ht.1] at hstray
      cases hstray
  | true =>
    obtain ⟨_, more, -, hrequote⟩ := requote_eq hquote
    have hone := ht.2
    rw [hquote, hrequote] at hone
    have hclose := (tokens_eq_string_iff rfl).mp (of_decide_eq_true hone)
    rw [hrequote]
    exact leads_iff.mpr ⟨rfl, closeQuote?_append hclose _⟩

theorem tokens_requote : ∀ {ts : List Token}, tokens (join ts) = ts → ts.all isWritable = true →
    tokens (join (ts.map requote)) = ts.map requote
  | [], _, _ => rfl
  | t :: rest, hts, hall => by
    obtain ⟨hleads, hrest⟩ := leads_of_tokens hts
    rw [List.all_cons, Bool.and_eq_true] at hall
    have hleads' := leads_requote hleads hall.1 hrest
    exact hleads'.tokens_eq.trans (congrArg _ (tokens_requote hrest hall.2))

/-! ## Respelling after that -/

theorem spellToken_requote (hwords : spelling ≠ .words) (previous next : Option Token) (t : Token) :
    spellToken spelling previous next (requote t) = spellToken spelling previous next t := by
  cases h : isRequoted t with
  | false => rw [requote_of_not h]
  | true =>
    have htext : (requote t).text = toDoubleQuoted t.text := by rw [requote, if_pos h]
    have htype : quotedType t.text = .string := by
      simp only [isRequoted, Bool.and_eq_true, decide_eq_true_eq] at h
      exact h.2
    obtain ⟨more, more', rfl, hrequote⟩ := requote_eq h
    rw [hrequote] at htext ⊢
    simp [spellToken, hwords, htype, ← htext]

theorem spellTokens_requote (hwords : spelling ≠ .words) : ∀ {ts : List Token}
    {previous previous' : Option Token} {drop : Bool},
      spellTokens spelling previous drop (ts.map requote) = spellTokens spelling previous' drop ts
  | [], _, _, _ => rfl
  | t :: rest, previous, previous', drop => by
    -- with signs the neighbours of a token play no part
    have hneighbours : ∀ p n p' n', spellToken spelling p n t = spellToken spelling p' n' t := by
      intro p n p' n'
      obtain ⟨kind, text⟩ := t
      cases kind <;> simp [spellToken, hwords]
    rw [List.map_cons, spellTokens, spellTokens, kind_requote, spellToken_requote hwords,
      hneighbours previous (rest.map requote).head? previous' rest.head?]
    split
    next => exact spellTokens_requote hwords
    next => exact congrArg _ (spellTokens_requote hwords)

theorem not_isStray_of_isPortable (h : isPortable ts = true) (ht : t ∈ ts) : t.isStray = false := by
  rw [isPortable, Bool.and_eq_true] at h
  have ht := List.all_eq_true.mp h.1 t ht
  rw [isWritable, Bool.and_eq_true, Bool.not_eq_true'] at ht
  exact ht.1

theorem isPortable_stretch {before after : List Token}
    (h : isPortable (before ++ ts ++ after) = true) : isPortable ts = true := by
  rw [isPortable, Bool.and_eq_true, List.all_append, List.all_append, List.map_append,
    List.map_append, Bool.and_eq_true, Bool.and_eq_true] at h
  rw [isPortable, Bool.and_eq_true]
  exact ⟨h.1.1.2, isRespellable_of_append h.2⟩

theorem isPortable_strip {s : List Char} (h : isPortable (tokens s) = true) :
    isPortable (tokens (strip s)) = true := by
  obtain ⟨before, after, hs, -⟩ := tokens_strip s
  rw [hs] at h
  exact isPortable_stretch h

/-- **The tokens of a respelled text** are those of the text, each with the quotes and in the words
of the spelling. -/
theorem solid_spellChars_of_isPortable (hwords : spelling ≠ .words) {s : List Char}
    (h : isPortable (tokens s) = true) :
    solid (spellChars spelling s) = (solid s).map spelling.rewritten := by
  have h := isPortable_strip h
  rw [isPortable, Bool.and_eq_true] at h
  have hjoin : tokens (join (tokens (strip s))) = tokens (strip s) := by rw [join_tokens]
  have hsolid : ((tokens (strip s)).map requote).filter isSolid =
      ((tokens (strip s)).filter isSolid).map requote := by
    rw [List.filter_map]
    refine congrArg _ (List.filter_congr fun t _ => ?_)
    simp [isSolid]
  have hspell : spellTokens spelling none false ((tokens (strip s)).map requote) =
      spellChars spelling s := spellTokens_requote hwords
  rw [← hspell, solid_spellTokens_eq (tokens_requote hjoin h.1) fun _ => h.2, hsolid,
    List.map_map, ← solid_strip s]
  rfl

end Blockflow.Expression
