import Blockflow.Proofs.Expression.Stripping

/-!
# Stretches of tokens

A stretch of the tokens of a text is what its own text is cut into (`Token.tokens_stretch`): what
stood behind it does not matter. A text is cut at an operator outside of brackets into stretches.
With the operator between them they are the text again (`Token.intercalate_cutAt`), and all of them
but the last close the brackets that they open (`Token.leveled_cutAt`), so a token that is outside
of brackets in a piece is so in the text, and the other way round (`Token.outside_intercalate`).
-/

namespace Blockflow

/-! ## Lists with something between them -/

section Intercalate

variable {α β : Type}

/-- What stands between the pieces also stands between two groups of pieces. -/
theorem intercalate_append {sep : List α} {more : List (List α)} (hmore : more ≠ []) :
    ∀ {pieces : List (List α)}, pieces ≠ [] →
      sep.intercalate (pieces ++ more) = sep.intercalate pieces ++ sep ++ sep.intercalate more
  | [], h => absurd rfl h
  | [piece], _ => by
    obtain ⟨next, others, rfl⟩ := List.exists_cons_of_ne_nil hmore
    rw [List.singleton_append, List.intercalate_cons_cons, List.intercalate_singleton]
  | piece :: next :: pieces, _ => by
    rw [List.cons_append, List.cons_append, List.intercalate_cons_cons, ← List.cons_append,
      intercalate_append hmore (List.cons_ne_nil next pieces), List.intercalate_cons_cons]
    simp only [List.append_assoc]

theorem head?_intercalate {sep piece : List α} (h : piece ≠ []) (pieces : List (List α)) :
    (sep.intercalate (piece :: pieces)).head? = piece.head? := by
  obtain ⟨x, more, rfl⟩ := List.exists_cons_of_ne_nil h
  cases pieces with
  | nil => simp
  | cons next others => rw [List.intercalate_cons_cons]; rfl

/-- What is done to each element is done to the pieces and to what stands between them. -/
theorem intercalate_hom {f : List α → List β} (hnil : f [] = [])
    (happend : ∀ l m, f (l ++ m) = f l ++ f m) (sep : List α) : ∀ pieces : List (List α),
      f (sep.intercalate pieces) = (f sep).intercalate (pieces.map f)
  | [] => hnil
  | [piece] => by simp
  | piece :: next :: pieces => by
    rw [List.intercalate_cons_cons, happend, happend, intercalate_hom hnil happend sep]
    simp only [List.map_cons, List.intercalate_cons_cons]

/-- Something holds of pieces and marks if it holds of the pieces. -/
theorem forall_mem_intercalate {P : α → Prop} {sep : List α} (hsep : ∀ x ∈ sep, P x) :
    ∀ {pieces : List (List α)},
      (∀ x ∈ sep.intercalate pieces, P x) ↔ ∀ piece ∈ pieces, ∀ x ∈ piece, P x
  | [] => by simp
  | [piece] => by simp
  | piece :: next :: pieces => by
    rw [List.intercalate_cons_cons, List.forall_mem_append, List.forall_mem_append,
      forall_mem_intercalate hsep, List.forall_mem_cons (a := piece)]
    exact ⟨fun h => ⟨h.1.1, h.2⟩, fun h => ⟨⟨h.1, hsep⟩, h.2⟩⟩

/-- Each piece is a stretch of the whole. -/
theorem exists_append_of_mem (sep : List α) {piece : List α} :
    ∀ {pieces : List (List α)}, piece ∈ pieces →
    ∃ before after, sep.intercalate pieces = before ++ piece ++ after
  | [_], h => by
    cases List.mem_singleton.mp h
    exact ⟨[], [], by simp⟩
  | first :: next :: pieces, h => by
    rw [List.intercalate_cons_cons]
    rcases List.mem_cons.mp h with rfl | h
    · exact ⟨[], sep ++ sep.intercalate (next :: pieces), by simp⟩
    · obtain ⟨before, after, heq⟩ := exists_append_of_mem sep h
      exact ⟨first ++ sep ++ before, after, by rw [heq]; simp only [List.append_assoc]⟩

end Intercalate

open Text

namespace Token

variable {t : Token} {ts : List Token}

theorem join_append (ts us : List Token) : join (ts ++ us) = join ts ++ join us :=
  List.flatMap_append

/-! ## Cutting off the end -/

/-- A text looks to tokens before it as it does with something behind it. -/
theorem alike_of_append (s u : List Char) : Alike (s ++ u) s where
  numeric := by
    rw [List.takeWhile_append]
    split
    next => exact (List.takeWhile_prefix _).trans (List.prefix_append _ _)
    next => exact List.prefix_rfl
  quote q _ hclose := by
    rw [closeQuote?_eq_none_iff] at hclose ⊢
    intro hclosed
    rw [QuoteState.after_append, hclosed, QuoteState.after_closed] at hclose
    exact hclose rfl

theorem Ends.of_append {s u : List Char} (h : Ends t (s ++ u)) : Ends t s := by
  cases s with
  | nil =>
    exact
      { name := fun _ d hd => by cases hd
        op := fun _ _ _ d hd => by cases hd
        space := fun _ d hd => by cases hd }
  | cons c rest => exact ⟨h.name, h.op, h.space⟩

/-- A start of some tokens is cut into those tokens again. -/
theorem tokens_of_append {after : List Token} : ∀ {ts : List Token},
    tokens (join (ts ++ after)) = ts ++ after → tokens (join ts) = ts
  | [], _ => rfl
  | t :: ts, h => by
    have h : tokens (join (t :: (ts ++ after))) = t :: (ts ++ after) := h
    obtain ⟨hleads, hrest⟩ := leads_of_tokens h
    rw [join_append] at hleads
    -- A token looks ahead, and a rest that is cut short shows it nothing new.
    have hleads' := hleads.of_alike (alike_of_append _ _) hleads.ends.of_append
    exact hleads'.tokens_eq.trans (congrArg _ (tokens_of_append hrest))

/-- **A stretch of the tokens of a text is what its text is cut into.** -/
theorem tokens_stretch {after : List Token} : ∀ {before ts : List Token},
    tokens (join (before ++ ts ++ after)) = before ++ ts ++ after → tokens (join ts) = ts
  | [], _, h => tokens_of_append h
  | _ :: _, _, h => tokens_stretch (leads_of_tokens h).2

/-! ## The depth of brackets -/

/-- By how much tokens change the depth of brackets. -/
def depth : List Token → Int
  | [] => 0
  | t :: rest => t.depthChange + depth rest

@[simp] theorem depth_nil : depth [] = 0 := rfl

@[simp] theorem depth_cons (t : Token) (ts : List Token) :
    depth (t :: ts) = t.depthChange + depth ts := rfl

@[simp] theorem depth_append (ts us : List Token) : depth (ts ++ us) = depth ts + depth us := by
  induction ts with
  | nil => simp
  | cons t rest ih => rw [List.cons_append, depth_cons, depth_cons, ih, Int.add_assoc]

/-- The tokens outside of brackets, where `start` brackets are open at the start. -/
def outside (start : Int) : List Token → List Token
  | [] => []
  | t :: rest =>
    if start + t.depthChange = 0 then t :: outside (start + t.depthChange) rest
    else outside (start + t.depthChange) rest

/-- The tokens outside of brackets are found from the depth where each part starts. -/
theorem outside_append (start : Int) (ts us : List Token) :
    outside start (ts ++ us) = outside start ts ++ outside (start + depth ts) us := by
  induction ts generalizing start with
  | nil => simp [outside]
  | cons t rest ih =>
    rw [List.cons_append, outside, outside, ih, depth_cons, ← Int.add_assoc]
    split <;> rfl

/-- What stands outside of brackets does not depend on tokens that are no brackets. -/
theorem outside_filter {keep : Token → Bool} (h : ∀ t, keep t = false → t.depthChange = 0)
    (start : Int) (ts : List Token) :
    outside start (ts.filter keep) = (outside start ts).filter keep := by
  induction ts generalizing start with
  | nil => rfl
  | cons t rest ih =>
    cases hkeep : keep t with
    | true =>
      rw [List.filter_cons_of_pos hkeep, outside, outside, ih]
      split
      next => rw [List.filter_cons_of_pos hkeep]
      next => rfl
    | false =>
      rw [List.filter_cons_of_neg (by simp [hkeep]), outside, h t hkeep, Int.add_zero, ih]
      split
      next => rw [List.filter_cons_of_neg (by simp [hkeep])]
      next => rfl

/-- Changing tokens without changing brackets changes the tokens outside in the same way. -/
theorem outside_map {f : Token → Token} (h : ∀ t, (f t).depthChange = t.depthChange) (start : Int)
    (ts : List Token) : outside start (ts.map f) = (outside start ts).map f := by
  induction ts generalizing start with
  | nil => rfl
  | cons t rest ih =>
    rw [List.map_cons, outside, outside, h, ih]
    split <;> rfl

theorem depth_filter {keep : Token → Bool} (h : ∀ t, keep t = false → t.depthChange = 0)
    (ts : List Token) : depth (ts.filter keep) = depth ts := by
  induction ts with
  | nil => rfl
  | cons t rest ih =>
    cases hkeep : keep t with
    | true => rw [List.filter_cons_of_pos hkeep, depth_cons, depth_cons, ih]
    | false =>
      rw [List.filter_cons_of_neg (by simp [hkeep]), depth_cons, h t hkeep, ih, Int.zero_add]

theorem depth_map {f : Token → Token} (h : ∀ t, (f t).depthChange = t.depthChange)
    (ts : List Token) : depth (ts.map f) = depth ts := by
  induction ts with
  | nil => rfl
  | cons t rest ih => rw [List.map_cons, depth_cons, depth_cons, h, ih]

/-! ## Pieces -/

section

variable {mark : List Char}

theorem cutAt_ne_nil (mark : List Char) (start : Int) (ts : List Token) :
    cutAt mark start ts ≠ [] := by
  cases ts with
  | nil => simp [cutAt]
  | cons t rest =>
    rw [cutAt]
    split
    next => simp
    next => split <;> simp

/-- Cutting starts a new piece at a mark outside of brackets. -/
theorem cutAt_cons (mark : List Char) (start : Int) (t : Token) (rest : List Token) :
    cutAt mark start (t :: rest) =
      if t = ⟨.op, mark⟩ ∧ start + t.depthChange = 0 then
        [] :: cutAt mark (start + t.depthChange) rest
      else (cutAt mark (start + t.depthChange) rest).modifyHead (t :: ·) := by
  have hcond : (t.kind = .op && t.text = mark && start + t.depthChange = 0) = true ↔
      t = ⟨.op, mark⟩ ∧ start + t.depthChange = 0 := by
    obtain ⟨kind, text⟩ := t
    simp
  have hne : cutAt mark (start + t.depthChange) rest ≠ [] := cutAt_ne_nil mark _ rest
  rw [cutAt]
  by_cases h : t = ⟨.op, mark⟩ ∧ start + t.depthChange = 0
  · rw [if_pos h, if_pos (hcond.mpr h)]
  · rw [if_neg h, if_neg (mt hcond.mp h)]
    cases hcut : cutAt mark (start + t.depthChange) rest with
    | nil => exact absurd hcut hne
    | cons piece pieces => rfl

/-- With the operator between them the pieces are the tokens again. -/
theorem intercalate_cutAt (mark : List Char) (start : Int) (ts : List Token) :
    [⟨.op, mark⟩].intercalate (cutAt mark start ts) = ts := by
  induction ts generalizing start with
  | nil => rfl
  | cons t rest ih =>
    have hrest := ih (start + t.depthChange)
    obtain ⟨piece, pieces, hcut⟩ := List.exists_cons_of_ne_nil
      (cutAt_ne_nil mark (start + t.depthChange) rest)
    rw [hcut] at hrest
    rw [cutAt_cons, hcut]
    split
    next h => rw [List.intercalate_cons_cons, hrest, h.1, List.nil_append, List.singleton_append]
    next =>
      cases pieces with
      | nil => simpa using hrest
      | cons next more =>
        rw [List.intercalate_cons_cons] at hrest
        rw [List.modifyHead_cons, List.intercalate_cons_cons, ← hrest]
        simp

/-- Every piece but the last one ends outside of brackets, where `start` brackets are open before
the first one. -/
inductive Leveled : (start : Int) → List (List Token) → Prop
  | none {start : Int} : Leveled start []
  | last {start : Int} (piece : List Token) : Leveled start [piece]
  | next {start : Int} {piece next : List Token} {more : List (List Token)}
      (hpiece : start + depth piece = 0) (hmore : Leveled 0 (next :: more)) :
      Leveled start (piece :: next :: more)

/-- Cutting outside of brackets leaves every piece but the last one with as many closed as
opened. -/
theorem leveled_cutAt (hmark : depthChange ⟨.op, mark⟩ = 0) (start : Int) (ts : List Token) :
    Leveled start (cutAt mark start ts) := by
  induction ts generalizing start with
  | nil => exact .last []
  | cons t rest ih =>
    have hrest := ih (start + t.depthChange)
    obtain ⟨piece, pieces, hcut⟩ := List.exists_cons_of_ne_nil
      (cutAt_ne_nil mark (start + t.depthChange) rest)
    rw [hcut] at hrest
    rw [cutAt_cons, hcut]
    split
    next h =>
      -- A mark outside of brackets: the depth is nought here, and the next piece starts at it.
      rw [h.2] at hrest
      rw [h.1, hmark] at h
      exact .next (by simpa using h.2) hrest
    next =>
      cases hrest with
      | last => exact .last _
      | next hpiece hmore => exact .next (by rw [depth_cons, ← Int.add_assoc]; exact hpiece) hmore

theorem Leveled.cons {piece : List Token} {pieces : List (List Token)} (hpiece : depth piece = 0)
    (h : Leveled 0 pieces) : Leveled 0 (piece :: pieces) := by
  cases pieces with
  | nil => exact .last piece
  | cons next more => exact .next (by rw [hpiece]; rfl) h

/-- If more pieces follow, every piece closes its brackets. -/
theorem Leveled.of_append {more : List (List Token)} (hmore : more ≠ []) :
    ∀ {pieces : List (List Token)}, Leveled 0 (pieces ++ more) →
      (∀ piece ∈ pieces, depth piece = 0) ∧ Leveled 0 more
  | [], h => ⟨by simp, h⟩
  | piece :: pieces, h => by
    obtain ⟨next, others, hnext⟩ := List.exists_cons_of_ne_nil
      (List.append_ne_nil_of_right_ne_nil pieces hmore)
    rw [List.cons_append, hnext] at h
    cases h with
    | next hpiece hlevel =>
      rw [← hnext] at hlevel
      rw [Int.zero_add] at hpiece
      obtain ⟨hpieces, hlevel⟩ := Leveled.of_append hmore hlevel
      exact ⟨List.forall_mem_cons.mpr ⟨hpiece, hpieces⟩, hlevel⟩

/-- A function that keeps the depth of each piece keeps the pieces level. -/
theorem Leveled.map {f : List Token → List Token} (hf : ∀ ts, depth (f ts) = depth ts) {start : Int}
    {pieces : List (List Token)} (h : Leveled start pieces) : Leveled start (pieces.map f) := by
  induction h with
  | none => exact .none
  | last piece => exact .last (f piece)
  | next hpiece _ ih => exact .next (by rw [hf]; exact hpiece) ih

end

variable {mark : Token}

/-- Pieces that close their brackets do so together. -/
theorem depth_intercalate (hmark : mark.depthChange = 0) : ∀ {pieces : List (List Token)},
    (∀ piece ∈ pieces, depth piece = 0) → depth ([mark].intercalate pieces) = 0
  | [], _ => rfl
  | [piece], h => by simpa using h
  | piece :: next :: more, h => by
    obtain ⟨hpiece, hmore⟩ := List.forall_mem_cons.mp h
    rw [List.intercalate_cons_cons, depth_append, depth_append, hpiece,
      depth_intercalate hmark hmore]
    simp [hmark]

/-- **What is outside of brackets in the pieces** is outside of them in the whole. -/
theorem outside_intercalate (hmark : mark.depthChange = 0) : ∀ {pieces : List (List Token)},
    Leveled 0 pieces →
      outside 0 ([mark].intercalate pieces) = [mark].intercalate (pieces.map (outside 0))
  | _, .none => rfl
  | _, .last piece => by simp
  | _, .next hpiece hmore => by
    rw [Int.zero_add] at hpiece
    rw [List.intercalate_cons_cons, outside_append, outside_append, depth_append, hpiece,
      List.map_cons, List.map_cons, List.intercalate_cons_cons, ← List.map_cons,
      ← outside_intercalate hmark hmore]
    simp [outside, hmark]

/-! ## Pieces as texts -/

section

variable {mark s : List Char}

/-- A piece is a stretch of the tokens, and cutting its text gives it back. -/
theorem exists_stretch {piece : List Token} (h : piece ∈ cutAt mark 0 (tokens s)) :
    ∃ before after, tokens s = before ++ piece ++ after ∧ tokens (join piece) = piece := by
  obtain ⟨before, after, heq⟩ := exists_append_of_mem [⟨.op, mark⟩] h
  rw [intercalate_cutAt] at heq
  exact ⟨before, after, heq, tokens_stretch (by rw [← heq, join_tokens])⟩

/-- A piece has a stretch of the tokens of the text, and no blanks at its ends. -/
theorem tokens_of_mem_pieces {p : List Char} (h : p ∈ pieces mark s) :
    Stripped p ∧ ∃ before after, tokens s = before ++ tokens p ++ after := by
  obtain ⟨piece, hpiece, rfl⟩ := List.mem_map.mp h
  obtain ⟨before, after, heq, hstretch⟩ := exists_stretch hpiece
  obtain ⟨blanks, blanks', hstrip, -⟩ := tokens_strip (join piece)
  refine ⟨strip_stripped _, before ++ blanks, blanks' ++ after, ?_⟩
  rw [hstretch] at hstrip
  calc tokens s
    _ = before ++ (blanks ++ tokens (strip (join piece)) ++ blanks') ++ after := by
      rw [← hstrip, heq]
    _ = _ := by simp only [Function.comp_apply, List.append_assoc]

/-- The solid tokens of a piece are those that were cut. -/
theorem map_solid_pieces (mark s : List Char) :
    (pieces mark s).map solid = (cutAt mark 0 (tokens s)).map (List.filter isSolid) := by
  rw [pieces, List.map_map]
  refine List.map_congr_left fun piece hpiece => ?_
  obtain ⟨_, _, _, hstretch⟩ := exists_stretch hpiece
  show solid (strip (join piece)) = piece.filter isSolid
  rw [solid_strip, solid, hstretch]

/-- With the operator between them the pieces of a text have its tokens. -/
theorem intercalate_pieces (mark s : List Char) :
    [⟨.op, mark⟩].intercalate ((pieces mark s).map solid) = solid s := by
  have hfilter := intercalate_hom (f := List.filter isSolid) rfl List.filter_append
    [⟨.op, mark⟩] (cutAt mark 0 (tokens s))
  rw [intercalate_cutAt] at hfilter
  rw [map_solid_pieces, solid, hfilter]
  rfl

theorem depthChange_of_not_isSolid {t : Token} (h : isSolid t = false) : t.depthChange = 0 := by
  have hkind : t.kind = .space := by simpa [isSolid] using h
  simp [depthChange, hkind]

/-- Blanks do not matter for what is outside of brackets. -/
theorem outside_solid (s : List Char) :
    outside 0 (solid s) = (outside 0 (tokens s)).filter isSolid :=
  outside_filter (fun _ => depthChange_of_not_isSolid) 0 (tokens s)

theorem leveled_pieces (hmark : depthChange ⟨.op, mark⟩ = 0) (s : List Char) :
    Leveled 0 ((pieces mark s).map solid) := by
  rw [map_solid_pieces]
  exact (leveled_cutAt hmark 0 _).map (depth_filter fun _ => depthChange_of_not_isSolid)

end

end Token

end Blockflow
