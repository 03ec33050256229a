import Blockflow.Proofs.Expression.Requoting

/-!
# What the tokens of a text are

No token is empty, and put together the tokens are the text. Which token a quote starts is decided
by what stands behind it (`Token.Leads.of_isQuote`): if the quote is closed there, the token is the
text up to the closing quote, and if it is not, the token is the quote alone.
-/

namespace Blockflow.Token

open Expression

/-! ## Quotes that are closed -/

/-- The quote is closed in what stands behind it: there are characters that can stand between these
quotes, then the quote. A backslash takes any character along except for a line break. -/
def Closes (quote : Char) (behind : List Char) : Prop :=
  ∃ ps tail, (∀ p ∈ ps, p.isWithin quote = true) ∧ behind = writePairs ps ++ quote :: tail

/-- A quote, characters that can stand between these quotes, and the same quote. -/
def IsQuoted (text : List Char) : Prop :=
  ∃ quote ps, isQuote quote = true ∧ (∀ p ∈ ps, p.isWithin quote = true) ∧
    text = quote :: writePairs ps ++ [quote]

variable {t : Token} {quote : Char} {more rest : List Char}

theorem closes_iff (hquote : isQuote quote = true) :
    Closes quote rest ↔ ∃ body, closeQuote? quote rest = some body := by
  have hslash : '\\' ≠ quote := by
    rintro rfl
    cases hquote
  constructor
  · rintro ⟨ps, tail, hps, rfl⟩
    have hclose := closeQuote?_append (closeQuote?_writePairs hslash hps) tail
    rw [List.append_assoc] at hclose
    exact ⟨_, hclose⟩
  · rintro ⟨body, hbody⟩
    obtain ⟨ps, rfl, hps⟩ := exists_of_closeQuote? hbody
    obtain ⟨tail, htail⟩ := closeQuote?_prefix hbody
    rw [List.append_assoc] at htail
    exact ⟨ps, tail, hps, htail.symm⟩

/-! ## The tokens of a text -/

theorem Leads.ne_nil (h : Leads t rest) : t.text ≠ [] := by
  obtain ⟨c, more, htext, -⟩ := h
  rw [htext]
  exact List.cons_ne_nil c more

theorem Leads.isQuoted (h : Leads t rest) (hkind : t.kind = .string) : IsQuoted t.text := by
  obtain ⟨kind, text⟩ := t
  obtain ⟨c, more, rfl, hfirst⟩ := h
  subst hkind
  obtain ⟨hquote, hclose⟩ := fits_of_first hfirst
  obtain ⟨ps, rfl, hps⟩ := exists_of_closeQuote? hclose
  exact ⟨c, ps, hquote, hps, rfl⟩

/-- A quote starts a text in quotes if it is closed, and is a token of its own if it is not. -/
theorem Leads.of_isQuote (h : Leads t rest) (htext : t.text = quote :: more)
    (hquote : isQuote quote = true) :
    t.kind = .string ∧ Closes quote (more ++ rest) ∨
      t.kind = .other ∧ more = [] ∧ ¬ Closes quote rest := by
  obtain ⟨c, tail, htail, hfirst⟩ := h
  cases htext.symm.trans htail
  rw [first_of_isQuote hquote] at hfirst
  cases hclose : closeQuote? quote (more ++ rest) with
  | some body =>
    rw [hclose] at hfirst
    exact .inl ⟨by rw [← hfirst]; rfl, (closes_iff hquote).mpr ⟨body, hclose⟩⟩
  | none =>
    rw [hclose] at hfirst
    subst hfirst
    cases htext
    refine .inr ⟨rfl, rfl, fun hcloses => ?_⟩
    obtain ⟨body, hbody⟩ := (closes_iff hquote).mp hcloses
    cases hclose.symm.trans hbody

/-- **Cutting a text into tokens is lossless.** Put together, the tokens are the text, and none of
them is empty. A token that is a text in quotes is a quote, characters that can stand between these
quotes, and the same quote. A token that starts with a quote is such a text if the quote is closed
in what stands behind it, and otherwise it is the quote alone. -/
theorem tokens_lossless (s : List Char) :
    join (tokens s) = s ∧
    (∀ t ∈ tokens s, t.text ≠ [] ∧ (t.kind = .string → IsQuoted t.text)) ∧
    ∀ before t after, tokens s = before ++ t :: after →
      ∀ quote more, t.text = quote :: more → isQuote quote = true →
        t.kind = .string ∧ Closes quote (more ++ join after) ∨
          t.kind = .other ∧ more = [] ∧ ¬ Closes quote (join after) := by
  refine ⟨join_tokens s, fun t ht => ?_, fun before t after h quote more htext hquote => ?_⟩
  · obtain ⟨before, after, hsplit⟩ := List.append_of_mem ht
    have hleads := leads_of_tokens_append hsplit
    exact ⟨hleads.ne_nil, hleads.isQuoted⟩
  · exact (leads_of_tokens_append h).of_isQuote htext hquote

/-- A text with an escaped quote in it, then a quote that only a backslash before a line break keeps
from being closed, and a backslash at the end. -/
def unclosed : List Char := "\"a\\\"\" 'b\\\n' \\".toList

theorem tokens_lossless_unclosed :
    (tokens unclosed).map (fun t => (t.kind, String.ofList t.text)) =
      [(.string, "\"a\\\"\""), (.space, " "), (.other, "'"), (.name, "b"), (.other, "\\"),
        (.space, "\n"), (.other, "'"), (.space, " "), (.other, "\\")] ∧
    join (tokens unclosed) = unclosed ∧ IsQuoted "\"a\\\"\"".toList ∧
      ¬ Closes '\x27' "b\\\n' \\".toList := by
  obtain ⟨hjoin, hkinds, hquotes⟩ := tokens_lossless unclosed
  refine ⟨by decide +kernel, hjoin, ?_, ?_⟩
  · exact (hkinds ⟨.string, "\"a\\\"\"".toList⟩ (by decide +kernel)).2 rfl
  · have hsplit : tokens unclosed = (tokens unclosed).take 2 ++
        ⟨.other, ['\x27']⟩ :: (tokens unclosed).drop 3 := by
      decide +kernel
    rcases hquotes _ _ _ hsplit '\x27' [] rfl rfl with ⟨hkind, -⟩ | ⟨-, -, hopen⟩
    · cases hkind
    · have hbehind : join ((tokens unclosed).drop 3) = "b\\\n' \\".toList := by decide +kernel
      rwa [hbehind] at hopen

/-- A quote can be a token of its own although it would be closed if backslashes took line breaks
along. -/
theorem not_forall_closed :
    ¬ ∀ (s : List Char) (before : List Token) (t : Token) (after : List Token),
      tokens s = before ++ t :: after → t.kind = .other →
        ∀ quote, t.text = [quote] → isQuote quote = true →
          ¬ ∃ ps tail, (∀ p ∈ ps, p ≠ QuotedChar.plain quote ∧ p ≠ .plain '\\') ∧
            join after = writePairs ps ++ quote :: tail := by
  intro h
  have htokens : tokens "'\\\n'".toList =
      [] ++ ⟨.other, ['\x27']⟩ :: [⟨.other, ['\\']⟩, ⟨.space, ['\n']⟩, ⟨.other, ['\x27']⟩] := by
    decide +kernel
  refine h _ _ _ _ htokens rfl '\x27' rfl rfl ⟨[.escape '\n'], [], ?_, rfl⟩
  exact List.forall_mem_singleton.mpr ⟨by simp, by simp⟩

end Blockflow.Token
