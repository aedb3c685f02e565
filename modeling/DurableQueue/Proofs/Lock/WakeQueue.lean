import DurableQueue.Lock.Local
import Mathlib.Data.List.Nodup

/-!
What the callers of a queue do to it.

`WakeQueue.IsSound` says who refers to a queue and who waits in it, each once, and that no wake-up is
kept while somebody waits. Every operation keeps it, with the caller added or taken away. A wake-up
that is handed on reaches somebody if anybody waits (`exists_woken_wakeOne`, `exists_woken_leave`).
-/

namespace DurableQueue.WakeQueue

/-- What a queue keeps: these callers refer to it, and these wait in it, woken or not. -/
structure IsSound (q : WakeQueue) (refers waits : Nat → Prop) : Prop where
  users : ∀ i, i ∈ q.users ↔ refers i
  queued : ∀ i, i ∈ q.waiting ∨ i ∈ q.woken ↔ waits i
  single : q.users.Nodup
  distinct : (q.waiting ++ q.woken).Nodup
  kept : q.keepsWake = true → q.waiting = []

variable {q : WakeQueue} {refers waits refers' waits' : Nat → Prop} {i j : Nat}

theorem wakeOne_of_nil (h : q.waiting = []) : q.wakeOne = { q with keepsWake := true } := by
  rw [wakeOne, h]

theorem wakeOne_of_cons {rest : List Nat} (h : q.waiting = i :: rest) :
    q.wakeOne = { q with waiting := rest, woken := q.woken ++ [i] } := by
  rw [wakeOne, h]

theorem mem_woken_wakeOne (h : i ∈ q.woken) : i ∈ q.wakeOne.woken := by
  cases hw : q.waiting with
  | nil =>
    rw [wakeOne_of_nil hw]
    exact h
  | cons first rest =>
    rw [wakeOne_of_cons hw]
    exact List.mem_append_left _ h

/-- If anybody waits, somebody who waits is woken. -/
theorem exists_woken_wakeOne (h : i ∈ q.waiting) : ∃ k, k ∈ q.waiting ∧ k ∈ q.wakeOne.woken := by
  cases hw : q.waiting with
  | nil =>
    rw [hw] at h
    cases h
  | cons first rest =>
    refine ⟨first, List.mem_cons_self, ?_⟩
    rw [wakeOne_of_cons hw]
    exact List.mem_append_right _ (List.mem_singleton_self _)

theorem leave_of_woken (h : i ∈ q.woken) :
    q.leave i = { q with woken := q.woken.erase i }.wakeOne := by
  simp [leave, h]

theorem leave_of_not_woken (h : i ∉ q.woken) :
    q.leave i = { q with waiting := q.waiting.erase i } := by
  simp [leave, h]

/-- Whoever was woken stays so when somebody else leaves. -/
theorem mem_woken_leave (h : j ∈ q.woken) (hne : j ≠ i) : j ∈ (q.leave i).woken := by
  by_cases hi : i ∈ q.woken
  · rw [leave_of_woken hi]
    exact mem_woken_wakeOne ((List.mem_erase_of_ne hne).mpr h)
  · rw [leave_of_not_woken hi]
    exact h

/-- Whoever leaves with a wake-up hands it on to somebody who waits, if anybody does. -/
theorem exists_woken_leave (hi : i ∈ q.woken) (hj : j ∈ q.waiting) :
    ∃ k, k ∈ q.waiting ∧ k ∈ (q.leave i).woken := by
  rw [leave_of_woken hi]
  exact exists_woken_wakeOne (q := { q with woken := q.woken.erase i }) hj

namespace IsSound

theorem empty (hr : ∀ i, ¬ refers i) (hw : ∀ i, ¬ waits i) : WakeQueue.empty.IsSound refers waits where
  users := fun i => ⟨fun h => absurd h List.not_mem_nil, fun h => absurd h (hr i)⟩
  queued := fun i => ⟨fun h => absurd (or_self_iff.mp h) List.not_mem_nil, fun h => absurd h (hw i)⟩
  single := List.nodup_nil
  distinct := List.nodup_nil
  kept := fun _ => rfl

theorem congr (h : q.IsSound refers waits) (hr : ∀ i, refers i ↔ refers' i)
    (hw : ∀ i, waits i ↔ waits' i) : q.IsSound refers' waits' where
  users := fun i => (h.users i).trans (hr i)
  queued := fun i => (h.queued i).trans (hw i)
  single := h.single
  distinct := h.distinct
  kept := h.kept

theorem not_mem_waiting (h : q.IsSound refers waits) (hi : i ∈ q.woken) : i ∉ q.waiting :=
  fun hw => (List.nodup_append.mp h.distinct).2.2 i hw i hi rfl

theorem enter (h : q.IsSound refers waits) (hi : ¬ refers i) :
    (q.enter i).IsSound (fun j => refers j ∨ j = i) waits where
  users := by
    intro j
    simp [WakeQueue.enter, h.users j]
  queued := h.queued
  single := by
    have hnot : i ∉ q.users := fun hmem => hi ((h.users i).mp hmem)
    exact List.nodup_append.mpr ⟨h.single, List.nodup_singleton i, by
      rintro j hj k hk rfl
      rw [List.mem_singleton] at hk
      exact hnot (hk ▸ hj)⟩
  distinct := h.distinct
  kept := h.kept

theorem part (h : q.IsSound refers waits) (i : Nat) :
    (q.part i).IsSound (fun j => refers j ∧ j ≠ i) waits where
  users := by
    intro j
    rw [WakeQueue.part, h.single.mem_erase_iff, h.users j]
    exact and_comm
  queued := h.queued
  single := h.single.erase i
  distinct := h.distinct
  kept := h.kept

/-- Who finds a wake-up uses it. -/
theorem join_of_kept (h : q.IsSound refers waits) (hk : (q.join i).1 = true) :
    (q.join i).2.IsSound refers waits := by
  unfold WakeQueue.join at hk ⊢
  split at hk
  · rename_i hkeeps
    rw [if_pos hkeeps]
    exact ⟨h.users, h.queued, h.single, h.distinct, fun hfalse => by cases hfalse⟩
  · cases hk

/-- Who finds no wake-up waits. -/
theorem join_of_not_kept (h : q.IsSound refers waits) (hi : ¬ waits i) (hk : (q.join i).1 = false) :
    (q.join i).2.IsSound refers (fun j => waits j ∨ j = i) := by
  have hnot : ¬ (i ∈ q.waiting ∨ i ∈ q.woken) := fun hmem => hi ((h.queued i).mp hmem)
  unfold WakeQueue.join at hk ⊢
  split at hk
  · cases hk
  · rename_i hkeeps
    rw [if_neg hkeeps]
    refine ⟨h.users, ?_, h.single, ?_, fun htrue => absurd htrue hkeeps⟩
    · intro j
      rw [← h.queued j]
      simp only [List.mem_append, List.mem_singleton]
      exact ⟨by rintro ((h | h) | h) <;> simp [h], by rintro ((h | h) | h) <;> simp [h]⟩
    · have hperm : (q.waiting ++ [i] ++ q.woken).Perm (i :: (q.waiting ++ q.woken)) := by
        rw [List.append_assoc]
        exact List.perm_middle
      refine hperm.nodup_iff.mpr (List.nodup_cons.mpr ⟨?_, h.distinct⟩)
      rwa [List.mem_append]

theorem goOn (h : q.IsSound refers waits) (hi : i ∈ q.woken) :
    (q.goOn i).IsSound refers (fun j => waits j ∧ j ≠ i) where
  users := h.users
  queued := by
    intro j
    have hwoken := (List.nodup_append.mp h.distinct).2.1
    rw [WakeQueue.goOn, hwoken.mem_erase_iff, ← h.queued j]
    constructor
    · rintro (hj | ⟨hne, hj⟩)
      · exact ⟨.inl hj, fun heq => h.not_mem_waiting hi (heq ▸ hj)⟩
      · exact ⟨.inr hj, hne⟩
    · rintro ⟨hj | hj, hne⟩
      · exact .inl hj
      · exact .inr ⟨hne, hj⟩
  single := h.single
  distinct := (List.Sublist.append_left List.erase_sublist q.waiting).nodup h.distinct
  kept := h.kept

theorem wakeOne (h : q.IsSound refers waits) : q.wakeOne.IsSound refers waits := by
  cases hw : q.waiting with
  | nil =>
    rw [wakeOne_of_nil hw]
    exact ⟨h.users, h.queued, h.single, h.distinct, fun _ => hw⟩
  | cons first rest =>
    rw [wakeOne_of_cons hw]
    have hperm : (rest ++ (q.woken ++ [first])).Perm (q.waiting ++ q.woken) := by
      rw [hw, ← List.append_assoc]
      exact List.perm_append_singleton first (rest ++ q.woken)
    refine ⟨h.users, ?_, h.single, hperm.nodup_iff.mpr h.distinct, ?_⟩
    · intro j
      rw [← h.queued j, ← List.mem_append, ← List.mem_append]
      exact hperm.mem_iff
    · intro hkeeps
      have hnil := h.kept hkeeps
      rw [hw] at hnil
      cases hnil

theorem leave (h : q.IsSound refers waits) (i : Nat) :
    (q.leave i).IsSound refers (fun j => waits j ∧ j ≠ i) := by
  by_cases hi : i ∈ q.woken
  · rw [leave_of_woken hi]
    exact (h.goOn hi).wakeOne
  · rw [leave_of_not_woken hi]
    have hwaiting := (List.nodup_append.mp h.distinct).1
    refine ⟨h.users, ?_, h.single, ?_, ?_⟩
    · intro j
      rw [hwaiting.mem_erase_iff, ← h.queued j]
      constructor
      · rintro (⟨hne, hj⟩ | hj)
        · exact ⟨.inl hj, hne⟩
        · exact ⟨.inr hj, fun heq => hi (heq ▸ hj)⟩
      · rintro ⟨hj | hj, hne⟩
        · exact .inl ⟨hne, hj⟩
        · exact .inr hj
    · exact (List.Sublist.append_right List.erase_sublist q.woken).nodup h.distinct
    · intro hkeeps
      have hnil := h.kept hkeeps
      show q.waiting.erase i = []
      rw [hnil]
      rfl

end IsSound

end DurableQueue.WakeQueue
