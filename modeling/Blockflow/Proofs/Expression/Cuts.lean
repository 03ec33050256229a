import Blockflow.Proofs.Expression.Stretches

/-!
# Cuts

Which pieces tokens are cut into at an operator can be said without cutting them: with the operator
between them they are the tokens again, all of them but the last close the brackets that they open,
and none has the operator outside of brackets (`Token.IsCut`). There is one way only to cut tokens
like this (`Token.isCut_iff`).
-/

namespace Blockflow

namespace Token

/-- The pieces of tokens between the marks that stand outside of brackets. -/
structure IsCut (mark : Token) (ts : List Token) (pieces : List (List Token)) : Prop where
  joined : [mark].intercalate pieces = ts
  leveled : Leveled 0 pieces
  whole : ∀ piece ∈ pieces, mark ∉ outside 0 piece
  ne_nil : pieces ≠ []

theorem notMem_outside_cons {mark t : Token} {start : Int} {rest : List Token} :
    mark ∉ outside start (t :: rest) ↔
      ¬ (t = mark ∧ start + t.depthChange = 0) ∧ mark ∉ outside (start + t.depthChange) rest := by
  rw [outside]
  by_cases hzero : start + t.depthChange = 0
  · rw [if_pos hzero, List.mem_cons, not_or, and_iff_left hzero, eq_comm]
  · rw [if_neg hzero]
    exact (and_iff_right fun h => hzero h.2).symm

section

variable {mark : List Char}

/-- Tokens without a mark outside of brackets are one piece. -/
theorem cutAt_of_notMem : ∀ {start : Int} {ts : List Token}, ⟨.op, mark⟩ ∉ outside start ts →
    cutAt mark start ts = [ts]
  | _, [], _ => rfl
  | start, t :: rest, h => by
    obtain ⟨hcut, hrest⟩ := notMem_outside_cons.mp h
    rw [cutAt_cons, if_neg hcut, cutAt_of_notMem hrest, List.modifyHead_cons]

/-- A piece that ends outside of brackets, with a mark behind it, is cut off. -/
theorem cutAt_append (hmark : depthChange ⟨.op, mark⟩ = 0) (rest : List Token) :
    ∀ {start : Int} {piece : List Token}, ⟨.op, mark⟩ ∉ outside start piece →
      start + depth piece = 0 →
      cutAt mark start (piece ++ ⟨.op, mark⟩ :: rest) = piece :: cutAt mark 0 rest
  | start, [], _, hzero => by
    have hzero : start = 0 := by simpa using hzero
    rw [List.nil_append, cutAt_cons, hmark, if_pos ⟨rfl, by rw [hzero]; rfl⟩, hzero]
    rfl
  | start, t :: piece, h, hzero => by
    obtain ⟨hcut, hrest⟩ := notMem_outside_cons.mp h
    rw [depth_cons, ← Int.add_assoc] at hzero
    rw [List.cons_append, cutAt_cons, if_neg hcut, cutAt_append hmark rest hrest hzero,
      List.modifyHead_cons]

/-- Cutting is the inverse of joining. -/
theorem cutAt_intercalate (hmark : depthChange ⟨.op, mark⟩ = 0) : ∀ {pieces : List (List Token)},
    pieces ≠ [] → Leveled 0 pieces → (∀ piece ∈ pieces, ⟨.op, mark⟩ ∉ outside 0 piece) →
      cutAt mark 0 ([⟨.op, mark⟩].intercalate pieces) = pieces
  | [], hne, _, _ => absurd rfl hne
  | [piece], _, _, hwhole => by
    rw [List.intercalate_singleton, cutAt_of_notMem (hwhole piece List.mem_cons_self)]
  | piece :: next :: more, _, .next hdepth hlevel, hwhole => by
    obtain ⟨hpiece, hmore⟩ := List.forall_mem_cons.mp hwhole
    rw [List.intercalate_cons_cons, List.append_assoc, List.singleton_append,
      cutAt_append hmark _ hpiece hdepth, cutAt_intercalate hmark (by simp) hlevel hmore]

/-- No piece has a mark outside of brackets, where `start` brackets are open before the first
one. -/
theorem notMem_outside_cutAt : ∀ {start : Int} {ts piece : List Token} {pieces : List (List Token)},
    cutAt mark start ts = piece :: pieces →
      ⟨.op, mark⟩ ∉ outside start piece ∧ ∀ other ∈ pieces, ⟨.op, mark⟩ ∉ outside 0 other
  | _, [], _, _, h => by
    cases h
    exact ⟨List.not_mem_nil, List.forall_mem_nil _⟩
  | start, t :: rest, piece, pieces, h => by
    obtain ⟨first, others, hcut⟩ := List.exists_cons_of_ne_nil
      (cutAt_ne_nil mark (start + t.depthChange) rest)
    obtain ⟨hfirst, hothers⟩ := notMem_outside_cutAt hcut
    rw [cutAt_cons, hcut] at h
    split at h
    next hmark =>
      -- The piece ends at the mark, and the next one starts outside of brackets.
      cases h
      rw [hmark.2] at hfirst
      exact ⟨List.not_mem_nil, List.forall_mem_cons.mpr ⟨hfirst, hothers⟩⟩
    next hmark =>
      cases h
      exact ⟨notMem_outside_cons.mpr ⟨hmark, hfirst⟩, hothers⟩

/-- **There is one way to cut tokens**, and `cutAt` takes it. -/
theorem isCut_iff (hmark : depthChange ⟨.op, mark⟩ = 0) {ts : List Token}
    {pieces : List (List Token)} : IsCut ⟨.op, mark⟩ ts pieces ↔ cutAt mark 0 ts = pieces := by
  constructor
  · rintro ⟨rfl, hlevel, hwhole, hne⟩
    exact cutAt_intercalate hmark hne hlevel hwhole
  · rintro rfl
    refine ⟨intercalate_cutAt mark 0 ts, leveled_cutAt hmark 0 ts, ?_, cutAt_ne_nil mark 0 ts⟩
    obtain ⟨piece, pieces, hcut⟩ := List.exists_cons_of_ne_nil (cutAt_ne_nil mark 0 ts)
    rw [hcut]
    exact List.forall_mem_cons.mpr (notMem_outside_cutAt hcut)

end

theorem leveled_of_depth : ∀ {pieces : List (List Token)}, (∀ piece ∈ pieces, depth piece = 0) →
    Leveled 0 pieces
  | [], _ => .none
  | _ :: _, h =>
    have ⟨hpiece, hmore⟩ := List.forall_mem_cons.mp h
    (leveled_of_depth hmore).cons hpiece

end Token

end Blockflow
