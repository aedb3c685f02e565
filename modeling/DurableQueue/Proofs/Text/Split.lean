import DurableQueue.Text.Split
import Mathlib.Data.List.Infix

/-!
Where text is split.

A split at a mark leaves a text before it in which no earlier mark is complete (`splitFirst_eq_some_iff`),
and a split at the last occurrence of a character leaves a text after it without that character
(`splitLast_eq_some_iff`). Both hold whatever else the text consists of, marks and characters included.
-/

namespace DurableQueue.Text

variable {mark before after cs : List Char} {c : Char}

theorem append_dropLast_isPrefix (before mark after : List Char) :
    before ++ mark.dropLast <+: before ++ mark ++ after := by
  rw [List.append_assoc]
  exact (List.prefix_append_right_inj before).mpr
    ((List.dropLast_prefix mark).trans (List.prefix_append mark after))

/-- A text is split at the first mark that is complete in it. -/
theorem splitFirst_eq_some_iff (hmark : mark ≠ []) :
    splitFirst mark cs = some (before, after) ↔
      cs = before ++ mark ++ after ∧ ¬mark <:+: before ++ mark.dropLast := by
  have hpos : 0 < mark.length := List.length_pos_iff.mpr hmark
  induction cs generalizing before with
  | nil => simp [splitFirst, hmark]
  | cons c cs ih =>
    by_cases hprefix : mark <+: c :: cs
    · have hsplit : splitFirst mark (c :: cs) = some ([], (c :: cs).drop mark.length) := by
        simp [splitFirst, hprefix]
      rw [hsplit]
      constructor
      · intro h
        cases h
        refine ⟨(List.prefix_iff_eq_append.mp hprefix).symm, ?_⟩
        intro hin
        have hle := hin.length_le
        simp only [List.nil_append, List.length_dropLast] at hle
        omega
      · rintro ⟨htext, hfirst⟩
        cases before with
        | nil => simp [htext]
        | cons x before =>
          -- the mark in front is complete before the other one is
          have hlen : mark.length ≤ (x :: before ++ mark.dropLast).length := by
            simp only [List.cons_append, List.length_cons, List.length_append, List.length_dropLast]
            omega
          have hstart := append_dropLast_isPrefix (x :: before) mark after
          rw [← htext] at hstart
          exact absurd (List.prefix_of_prefix_length_le hprefix hstart hlen).isInfix hfirst
    · have hsplit : splitFirst mark (c :: cs) = (splitFirst mark cs).map fun r => (c :: r.1, r.2) := by
        simp [splitFirst, hprefix]
      rw [hsplit]
      constructor
      · intro h
        obtain ⟨⟨rest, tail⟩, hrest, heq⟩ := Option.map_eq_some_iff.mp h
        cases heq
        obtain ⟨rfl, hfirst⟩ := ih.mp hrest
        refine ⟨rfl, ?_⟩
        intro hin
        rcases List.infix_cons_iff.mp hin with hin | hin
        · exact hprefix (hin.trans (append_dropLast_isPrefix (c :: rest) mark tail))
        · exact hfirst hin
      · rintro ⟨htext, hfirst⟩
        cases before with
        | nil => exact absurd ⟨after, htext.symm⟩ hprefix
        | cons x before =>
          obtain ⟨rfl, hcs⟩ := List.cons.inj htext
          have hrest : splitFirst mark cs = some (before, after) :=
            ih.mpr ⟨hcs, fun hin => hfirst (List.infix_cons hin)⟩
          rw [hrest]
          rfl

/-- A text is split at the first occurrence of a character. -/
theorem splitFirst_singleton_eq_some_iff :
    splitFirst [c] cs = some (before, after) ↔ cs = before ++ c :: after ∧ c ∉ before := by
  rw [splitFirst_eq_some_iff (List.cons_ne_nil c [])]
  simp [List.singleton_infix_iff]

theorem not_mem_of_splitLast (h : splitLast c cs = none) : c ∉ cs := by
  induction cs with
  | nil => simp
  | cons x cs ih =>
    cases hrest : splitLast c cs with
    | some rest => simp [splitLast, hrest] at h
    | none =>
      have hx : x ≠ c := by
        intro hx
        simp [splitLast, hrest, hx] at h
      simp [ih hrest, hx.symm]

/-- A text is split at the last occurrence of a character. -/
theorem splitLast_eq_some_iff :
    splitLast c cs = some (before, after) ↔ cs = before ++ c :: after ∧ c ∉ after := by
  constructor
  · intro h
    induction cs generalizing before with
    | nil => cases h
    | cons x cs ih =>
      cases hrest : splitLast c cs with
      | some rest =>
        simp only [splitLast, hrest, Option.some.injEq, Prod.mk.injEq] at h
        obtain ⟨rfl, rfl⟩ := h
        obtain ⟨rfl, hafter⟩ := ih hrest
        exact ⟨rfl, hafter⟩
      | none =>
        by_cases hx : x = c
        · simp only [splitLast, hrest, hx, ↓reduceIte, Option.some.injEq, Prod.mk.injEq] at h
          obtain ⟨rfl, rfl⟩ := h
          exact ⟨by simp [hx], not_mem_of_splitLast hrest⟩
        · simp [splitLast, hrest, hx] at h
  · rintro ⟨rfl, hafter⟩
    exact splitLast_append c before hafter

end DurableQueue.Text
