import Mathlib.Data.List.Forall2
import Mathlib.Data.List.Induction

/-!
Numbers of the elements of one kind.

A list holds elements of several kinds. `rankOf` numbers those of one kind by their order, and `Ranked` ties
such a number to the place in the list. A place keeps its number when the list grows.
-/

namespace DurableQueue

section

variable {α β : Type} {P : α → Bool} {xs : List α} {x : α} {i j i' j' : Nat}

/-- How many elements of a kind stand before this place. -/
def rankOf (P : α → Bool) (xs : List α) (i : Nat) : Nat := (xs.take i).countP P

/-- The element at place `i` is of a kind, and has number `i'` among those. -/
structure Ranked (P : α → Bool) (xs : List α) (i i' : Nat) : Prop where
  kind : (xs[i]?).any P = true
  rank : rankOf P xs i = i'

theorem Ranked.exists_getElem? (h : Ranked P xs i i') : ∃ x, xs[i]? = some x ∧ P x = true := by
  have hkind := h.kind
  cases hi : xs[i]? with
  | none =>
    rw [hi] at hkind
    cases hkind
  | some x =>
    rw [hi] at hkind
    exact ⟨x, rfl, hkind⟩

theorem Ranked.lt_length (h : Ranked P xs i i') : i < xs.length := by
  obtain ⟨x, hi, -⟩ := h.exists_getElem?
  exact (List.getElem?_eq_some_iff.mp hi).1

theorem rankOf_succ (hi : xs[i]? = some x) :
    rankOf P xs (i + 1) = rankOf P xs i + if P x = true then 1 else 0 := by
  rw [rankOf, List.take_add_one, hi, List.countP_append, rankOf]
  simp only [Option.toList_some, List.countP_singleton]

theorem rankOf_mono (P : α → Bool) (xs : List α) (hij : i ≤ j) : rankOf P xs i ≤ rankOf P xs j :=
  (List.take_sublist_take_left hij).countP_le

theorem Ranked.lt_of_lt (h : Ranked P xs i i') (h' : Ranked P xs j j') (hij : i < j) : i' < j' := by
  obtain ⟨x, hi, hx⟩ := h.exists_getElem?
  have hnext := rankOf_succ (P := P) hi
  rw [if_pos hx, h.rank] at hnext
  have hmono := rankOf_mono P xs (show i + 1 ≤ j from hij)
  rw [h'.rank] at hmono
  omega

/-- Places and numbers determine each other. -/
theorem Ranked.eq_iff (h : Ranked P xs i i') (h' : Ranked P xs j j') : i = j ↔ i' = j' := by
  constructor
  · rintro rfl
    exact h.rank.symm.trans h'.rank
  · intro heq
    rcases Nat.lt_trichotomy i j with hlt | heq | hlt
    · exact absurd heq (Nat.ne_of_lt (h.lt_of_lt h' hlt))
    · exact heq
    · exact absurd heq.symm (Nat.ne_of_lt (h'.lt_of_lt h hlt))

theorem rankOf_append (ys : List α) (hi : i ≤ xs.length) : rankOf P (xs ++ ys) i = rankOf P xs i := by
  rw [rankOf, List.take_append_of_le_length hi, rankOf]

theorem Ranked.append (h : Ranked P xs i i') (ys : List α) : Ranked P (xs ++ ys) i i' where
  kind := by
    rw [List.getElem?_append_left h.lt_length]
    exact h.kind
  rank := by rw [rankOf_append ys (Nat.le_of_lt h.lt_length), h.rank]

theorem Ranked.concat (xs : List α) (hx : P x = true) : Ranked P (xs ++ [x]) xs.length (xs.countP P) where
  kind := by
    rw [List.getElem?_concat_length]
    exact hx
  rank := by rw [rankOf_append _ (Nat.le_refl _), rankOf, List.take_length]

/-- A place in a longer list was there before, or it is the new one. -/
theorem Ranked.concat_cases (h : Ranked P (xs ++ [x]) i i') :
    Ranked P xs i i' ∨ i = xs.length ∧ i' = xs.countP P ∧ P x = true := by
  obtain ⟨y, hi, hy⟩ := h.exists_getElem?
  rcases Nat.lt_trichotomy i xs.length with hlt | rfl | hlt
  · rw [List.getElem?_append_left hlt] at hi
    have hrank := h.rank
    rw [rankOf_append _ (Nat.le_of_lt hlt)] at hrank
    exact .inl ⟨by rw [hi]; exact hy, hrank⟩
  · rw [List.getElem?_concat_length] at hi
    have hrank := h.rank
    rw [rankOf_append _ (Nat.le_refl _), rankOf, List.take_length] at hrank
    exact .inr ⟨rfl, hrank.symm, Option.some.inj hi ▸ hy⟩
  · rw [List.getElem?_append_right (Nat.le_of_lt hlt), List.getElem?_singleton] at hi
    rw [if_neg (Nat.sub_ne_zero_of_lt hlt)] at hi
    cases hi

/-- Every number is that of a place. -/
theorem exists_ranked (h : i' < xs.countP P) : ∃ i, Ranked P xs i i' := by
  induction xs using List.reverseRecOn with
  | nil => cases h
  | append_singleton xs x ih =>
    rw [List.countP_append, List.countP_singleton] at h
    by_cases hlt : i' < xs.countP P
    · obtain ⟨i, hi⟩ := ih hlt
      exact ⟨i, hi.append [x]⟩
    · by_cases hx : P x = true
      · rw [if_pos hx] at h
        obtain rfl : i' = xs.countP P := by omega
        exact ⟨xs.length, .concat xs hx⟩
      · rw [if_neg hx] at h
        exact absurd h hlt

/-- The number of a place, if its element is of the kind. -/
def rank? (P : α → Bool) (xs : List α) (i : Nat) : Option Nat :=
  if (xs[i]?).any P then some (rankOf P xs i) else none

theorem rank?_eq_some_iff : rank? P xs i = some i' ↔ Ranked P xs i i' := by
  rw [rank?, Option.ite_none_right_eq_some, Option.some_inj]
  exact ⟨fun ⟨hkind, hrank⟩ => ⟨hkind, hrank⟩, fun h => ⟨h.kind, h.rank⟩⟩

theorem rank?_eq_none_iff : rank? P xs i = none ↔ (xs[i]?).any P = false := by
  rw [rank?, ite_eq_right_iff, ← Bool.not_eq_true]
  exact ⟨fun h hkind => Option.some_ne_none _ (h hkind), fun h hkind => absurd hkind h⟩

/-- The element of a place has its number among the elements of its kind. -/
theorem getElem?_filter_rankOf (hi : xs[i]? = some x) (hx : P x = true) :
    (xs.filter P)[rankOf P xs i]? = some x := by
  obtain ⟨hlt, rfl⟩ := List.getElem?_eq_some_iff.mp hi
  have hsplit : xs.filter P = (xs.take i).filter P ++ xs[i] :: (xs.drop (i + 1)).filter P := by
    conv_lhs => rw [← List.take_append_drop i xs, List.drop_eq_getElem_cons hlt, List.filter_append,
      List.filter_cons_of_pos hx]
  rw [hsplit, rankOf, List.countP_eq_length_filter, List.getElem?_append_right (Nat.le_refl _), Nat.sub_self]
  rfl

/-- Where everything is of the kind, places and numbers are the same. -/
theorem rankOf_eq_self (h : ∀ x ∈ xs, P x = true) (hi : i ≤ xs.length) : rankOf P xs i = i := by
  rw [rankOf, List.countP_eq_length.mpr fun x hx => h x (List.mem_of_mem_take hx), List.length_take,
    Nat.min_eq_left hi]

theorem rank?_eq_some_self (h : ∀ x ∈ xs, P x = true) (hi : xs[i]? = some x) : rank? P xs i = some i :=
  rank?_eq_some_iff.mpr
    ⟨by rw [hi]; exact h x (List.mem_of_getElem? hi),
      rankOf_eq_self h (Nat.le_of_lt (List.getElem?_eq_some_iff.mp hi).1)⟩

theorem rankOf_map {Q : β → Bool} (f : β → α) (ys : List β) (h : ∀ y, Q y = P (f y)) :
    rankOf Q ys i = rankOf P (ys.map f) i := by
  rw [rankOf, rankOf, ← List.map_take, List.countP_map]
  exact congrArg (List.countP · _) (funext h)

end

section

variable {R : Nat → Nat → Prop} {xs ys : List Nat} {i j : Nat}

/-- A relation under which numbers determine each other. -/
def IsOneToOne (R : Nat → Nat → Prop) : Prop := ∀ i i' j j', R i i' → R j j' → (i = j ↔ i' = j')

theorem IsOneToOne.contains_eq (hR : IsOneToOne R) (h : List.Forall₂ R xs ys) (hij : R i j) :
    xs.contains i = ys.contains j := by
  induction h with
  | nil => rfl
  | cons hxy _ ih =>
    rw [List.contains_cons, List.contains_cons, ih]
    congr 1
    exact Bool.eq_iff_iff.mpr (by simpa using hR _ _ _ _ hij hxy)

theorem IsOneToOne.erase (hR : IsOneToOne R) (h : List.Forall₂ R xs ys) (hij : R i j) :
    List.Forall₂ R (xs.erase i) (ys.erase j) := by
  induction h with
  | nil => exact .nil
  | @cons x y xs ys hxy hrest ih =>
    by_cases hx : x = i
    · have hy : y = j := (hR _ _ _ _ hxy hij).mp hx
      rw [hx, hy, List.erase_cons_head, List.erase_cons_head]
      exact hrest
    · have hy : y ≠ j := fun heq => hx ((hR _ _ _ _ hxy hij).mpr heq)
      rw [List.erase_cons_tail (by simpa using hx), List.erase_cons_tail (by simpa using hy)]
      exact .cons hxy ih

theorem forall₂_concat (h : List.Forall₂ R xs ys) (hij : R i j) : List.Forall₂ R (xs ++ [i]) (ys ++ [j]) :=
  List.rel_append h (.cons hij .nil)

end

end DurableQueue
