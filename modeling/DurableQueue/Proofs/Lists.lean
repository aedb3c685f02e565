import Mathlib.Algebra.GroupWithZero.Nat
import Mathlib.Data.List.Perm.Basic

/-!
Lists in which one element takes the place of another or of several, or that get one more.
-/

namespace DurableQueue

variable {α : Type} {l : List α} {i : Nat} {x y : α}

theorem getElem?_set_of_some (hi : l[i]? = some x) (y : α) : (l.set i y)[i]? = some y := by
  obtain ⟨hlt, -⟩ := List.getElem?_eq_some_iff.mp hi
  exact List.getElem?_set_self hlt

theorem set_of_getElem? (hi : l[i]? = some x) : l.set i x = l := by
  obtain ⟨hlt, rfl⟩ := List.getElem?_eq_some_iff.mp hi
  exact List.set_getElem_self hlt

/-- What holds of all elements of a list and of another holds after the other took a place. -/
theorem forall_mem_set {p : α → Prop} {l : List α} (hl : ∀ y ∈ l, p y) {x : α} (hx : p x) (i : Nat) :
    ∀ y ∈ l.set i x, p y := by
  intro y hy
  rcases List.mem_or_eq_of_mem_set hy with hy | rfl
  · exact hl y hy
  · exact hx

theorem map_set_of_eq {β : Type} {f : α → β} (hi : l[i]? = some x) (hf : f y = f x) :
    (l.set i y).map f = l.map f := by
  rw [List.map_set, hf]
  refine set_of_getElem? ?_
  rw [List.getElem?_map, hi]
  rfl

theorem filterMap_set_of_eq {β : Type} {f : α → Option β} (hi : l[i]? = some x) (hf : f y = f x) :
    (l.set i y).filterMap f = l.filterMap f := by
  have hid : ∀ l : List α, (l.map f).filterMap id = l.filterMap f := fun l => List.filterMap_map ..
  rw [← hid, ← hid, map_set_of_eq hi hf]

/-- An element that counts takes the place of one that does not. -/
theorem filterMap_set_perm {β : Type} {f : α → Option β} {b : β} (hi : l[i]? = some x) (hx : f x = none)
    (hy : f y = some b) : ((l.set i y).filterMap f).Perm (b :: l.filterMap f) := by
  obtain ⟨hlt, rfl⟩ := List.getElem?_eq_some_iff.mp hi
  have hset := (List.set_perm_cons_eraseIdx hlt y).filterMap f
  have hold := (List.getElem_cons_eraseIdx_perm hlt).filterMap f
  rw [List.filterMap_cons_some hy] at hset
  rw [List.filterMap_cons_none hx] at hold
  exact hset.trans (hold.cons b)

/-- A count, where one element takes the place of another. -/
theorem countP_set (hi : l[i]? = some x) (y : α) (p : α → Bool) :
    (l.set i y).countP p + (if p x then 1 else 0) = l.countP p + if p y then 1 else 0 := by
  obtain ⟨hlt, rfl⟩ := List.getElem?_eq_some_iff.mp hi
  have hset := (List.set_perm_cons_eraseIdx hlt y).countP_eq p
  have hold := (List.getElem_cons_eraseIdx_perm hlt).countP_eq p
  rw [List.countP_cons] at hset hold
  omega

theorem sum_map_set (hi : l[i]? = some x) (y : α) (f : α → Nat) :
    ((l.set i y).map f).sum + f x = (l.map f).sum + f y := by
  obtain ⟨hlt, rfl⟩ := List.getElem?_eq_some_iff.mp hi
  have hset := ((List.set_perm_cons_eraseIdx hlt y).map f).sum_nat
  have hold := ((List.getElem_cons_eraseIdx_perm hlt).map f).sum_nat
  rw [List.map_cons, List.sum_cons] at hset hold
  omega

/-- An element that takes the place of all that are listed. -/
theorem getElem?_foldl_set (y : α) (l : List α) (is : List Nat) (j : Nat) :
    (is.foldl (fun l i => l.set i y) l)[j]? = if j ∈ is then l[j]?.map fun _ => y else l[j]? := by
  induction is generalizing l with
  | nil => simp
  | cons i rest ih =>
    rw [List.foldl_cons, ih, List.getElem?_set']
    by_cases hij : i = j
    · subst hij
      cases l[i]? <;> simp
    · have hji : ¬ j = i := fun h => hij h.symm
      simp [hij, hji]

theorem foldl_set_range (y : α) (l : List α) :
    (List.range l.length).foldl (fun l i => l.set i y) l = l.map fun _ => y := by
  refine List.ext_getElem? fun j => ?_
  rw [getElem?_foldl_set, List.getElem?_map]
  split
  · rfl
  · rename_i hj
    rw [List.getElem?_eq_none (Nat.le_of_not_lt fun hlt => hj (List.mem_range.mpr hlt))]
    rfl

/-- An element of a list that got one more is an old one or the new one. -/
theorem getElem?_snoc_eq_some_iff : (l ++ [x])[i]? = some y ↔ l[i]? = some y ∨ i = l.length ∧ x = y := by
  rcases Nat.lt_trichotomy i l.length with hlt | heq | hgt
  · rw [List.getElem?_append_left hlt]
    exact ⟨.inl, fun h => h.resolve_right fun h => absurd h.1 (Nat.ne_of_lt hlt)⟩
  · subst heq
    simp
  · rw [List.getElem?_eq_none (by simp; omega), List.getElem?_eq_none (Nat.le_of_lt hgt)]
    simp only [reduceCtorEq, false_or, false_iff]
    exact fun h => absurd h.1 (Nat.ne_of_gt hgt)

/-- Of elements with distinct keys, the one with a key is found. -/
theorem find?_of_nodup_map {α β : Type} [BEq β] [LawfulBEq β] {f : α → β} {l : List α} {a : α}
    (hl : (l.map f).Nodup) (ha : a ∈ l) : l.find? (fun x => f x == f a) = some a := by
  induction l with
  | nil => cases ha
  | cons b l ih =>
    rw [List.map_cons, List.nodup_cons] at hl
    rcases List.mem_cons.mp ha with rfl | ha
    · exact List.find?_cons_of_pos (beq_self_eq_true (f a))
    · have hne : f b ≠ f a := fun heq => hl.1 (heq ▸ List.mem_map_of_mem ha)
      rw [List.find?_cons_of_neg (by simpa using hne)]
      exact ih hl.2 ha

/-- Of pairs with distinct keys, the one with a key is looked up. -/
theorem lookup_of_nodup_map {α β : Type} [BEq α] [LawfulBEq α] {l : List (α × β)} {p : α × β}
    (hl : (l.map Prod.fst).Nodup) (hp : p ∈ l) : l.lookup p.1 = some p.2 := by
  induction l with
  | nil => cases hp
  | cons q l ih =>
    rw [List.map_cons, List.nodup_cons] at hl
    rcases List.mem_cons.mp hp with rfl | hp
    · exact List.lookup_cons_self
    · have hne : p.1 ≠ q.1 := fun heq => hl.1 (heq ▸ List.mem_map_of_mem hp)
      rw [List.lookup_cons, beq_false_of_ne hne]
      exact ih hl.2 hp

end DurableQueue
