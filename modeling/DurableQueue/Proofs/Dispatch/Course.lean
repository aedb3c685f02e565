import DurableQueue.Proofs.Dispatch.AttemptLog
import DurableQueue.Proofs.Lists

/-!
The course of the attempts on one entry.

In a `Course` an attempt begins only when none is in progress, each that is in progress ends with an
update that is accepted, and nothing follows one that ended well. A course fixes how many attempts
failed and whether one is in progress, and with that everything that can be counted in it.
-/

namespace DurableQueue

/-- Where the attempts on an entry are. -/
inductive AttemptPhase where
  | idle
  | running (t : BusTask) (claim : Entry)
  /-- One ended well. -/
  | done

/-- What may be told of the attempts on one entry, `k` of which failed. -/
inductive Course : List AttemptEvent → Nat → AttemptPhase → Prop where
  | nil : Course [] 0 .idle
  | begun {log : List AttemptEvent} {k : Nat} (h : Course log k .idle) (t : BusTask) (c : Entry) :
    Course (log ++ [.begun t c]) k (.running t c)
  | failed {log : List AttemptEvent} {k : Nat} {t : BusTask} {c next : Entry}
    (h : Course log k (.running t c)) (hnext : next.state ≠ .processed) :
    Course (log ++ [.stored t c next (.ok ())]) (k + 1) .idle
  | succeeded {log : List AttemptEvent} {k : Nat} {t : BusTask} {c next : Entry}
    (h : Course log k (.running t c)) (hnext : next.state = .processed) :
    Course (log ++ [.stored t c next (.ok ())]) k .done

namespace Course

variable {log : List AttemptEvent} {k i j : Nat} {p : AttemptPhase} {t t' : BusTask}
  {c d next : Entry} {answer : Except StoreError Unit}

/-- Every update is accepted. -/
theorem accepted (h : Course log k p) (hmem : .stored t c next answer ∈ log) : answer = .ok () := by
  induction h with
  | nil => cases hmem
  | begun h t' c' ih =>
    rcases List.mem_append.mp hmem with hmem | hnew
    · exact ih hmem
    · cases List.mem_singleton.mp hnew
  | failed h hnext ih =>
    rcases List.mem_append.mp hmem with hmem | hnew
    · exact ih hmem
    · cases List.mem_singleton.mp hnew
      rfl
  | succeeded h hnext ih =>
    rcases List.mem_append.mp hmem with hmem | hnew
    · exact ih hmem
    · cases List.mem_singleton.mp hnew
      rfl

/-- Only the last event tells of success. -/
theorem succeeded_iff (h : Course log k p) (hi : log[i]? = some (.stored t c next answer)) :
    next.state = .processed ↔ p = .done ∧ i + 1 = log.length := by
  induction h with
  | nil => cases hi
  | begun h t' c' ih =>
    rcases getElem?_snoc_eq_some_iff.mp hi with hi | ⟨-, hnew⟩
    · refine iff_of_false (fun hstate => ?_) nofun
      cases ((ih hi).mp hstate).1
    · cases hnew
  | failed h hnext ih =>
    refine iff_of_false (fun hstate => ?_) nofun
    rcases getElem?_snoc_eq_some_iff.mp hi with hi | ⟨-, hnew⟩
    · cases ((ih hi).mp hstate).1
    · cases hnew
      exact hnext hstate
  | @succeeded log k t' c' next' h hnext ih =>
    rcases getElem?_snoc_eq_some_iff.mp hi with hi | ⟨rfl, hnew⟩
    · have hlt := (List.getElem?_eq_some_iff.mp hi).1
      refine iff_of_false (fun hstate => ?_) fun hlast => ?_
      · cases ((ih hi).mp hstate).1
      · simp only [List.length_append, List.length_singleton] at hlast
        omega
    · cases hnew
      simp [hnext]

/-- An attempt that began is in progress, or it has stored its record since. -/
theorem in_progress_or_stored (h : Course log k p) (hi : log[i]? = some (.begun t c)) :
    p = .running t c ∨ ∃ j next, i < j ∧ log[j]? = some (.stored t c next (.ok ())) := by
  have hlater {log : List AttemptEvent} {x : AttemptEvent}
      (h : ∃ j next, i < j ∧ log[j]? = some (.stored t c next (.ok ()))) :
      ∃ j next, i < j ∧ (log ++ [x])[j]? = some (.stored t c next (.ok ())) := by
    obtain ⟨j, next, hij, hj⟩ := h
    exact ⟨j, next, hij, getElem?_snoc_eq_some_iff.mpr (.inl hj)⟩
  -- the attempt that ends is the one in question, or that one has ended before
  have hends {log : List AttemptEvent} {t' : BusTask} {c' next : Entry}
      (ih : log[i]? = some (.begun t c) → AttemptPhase.running t' c' = .running t c ∨
        ∃ j next, i < j ∧ log[j]? = some (.stored t c next (.ok ())))
      (hi : (log ++ [.stored t' c' next (.ok ())])[i]? = some (.begun t c)) :
      ∃ j next', i < j ∧ (log ++ [.stored t' c' next (.ok ())])[j]? = some (.stored t c next' (.ok ())) := by
    rcases getElem?_snoc_eq_some_iff.mp hi with hbefore | ⟨-, hnew⟩
    · rcases ih hbefore with hrunning | hstored
      · cases hrunning
        exact ⟨log.length, next, (List.getElem?_eq_some_iff.mp hbefore).1,
          getElem?_snoc_eq_some_iff.mpr (.inr ⟨rfl, rfl⟩)⟩
      · exact hlater hstored
    · cases hnew
  induction h with
  | nil => cases hi
  | begun h t' c' ih =>
    rcases getElem?_snoc_eq_some_iff.mp hi with hbefore | ⟨-, hnew⟩
    · exact .inr (hlater ((ih hbefore).resolve_left nofun))
    · cases hnew
      exact .inl rfl
  | failed h hnext ih => exact .inr (hends ih hi)
  | succeeded h hnext ih => exact .inr (hends ih hi)

/-- Of two attempts the first has stored its record before the second begins. -/
theorem apart (h : Course log k p) (hi : log[i]? = some (.begun t c))
    (hj : log[j]? = some (.begun t' d)) (hij : i < j) :
    ∃ m next, i < m ∧ m < j ∧ log[m]? = some (.stored t c next (.ok ())) := by
  have hlonger {log : List AttemptEvent} {x : AttemptEvent}
      (h : ∃ m next, i < m ∧ m < j ∧ log[m]? = some (.stored t c next (.ok ()))) :
      ∃ m next, i < m ∧ m < j ∧ (log ++ [x])[m]? = some (.stored t c next (.ok ())) := by
    obtain ⟨m, next, him, hmj, hm⟩ := h
    exact ⟨m, next, him, hmj, getElem?_snoc_eq_some_iff.mpr (.inl hm)⟩
  have hold {log : List AttemptEvent} {x : AttemptEvent} (hi : (log ++ [x])[i]? = some (.begun t c))
      (hj : log[j]? = some (.begun t' d)) : log[i]? = some (.begun t c) := by
    rcases getElem?_snoc_eq_some_iff.mp hi with hi | ⟨rfl, -⟩
    · exact hi
    · exact absurd (List.getElem?_eq_some_iff.mp hj).1 (by omega)
  induction h with
  | nil => cases hi
  | begun h t₁ c₁ ih =>
    rcases getElem?_snoc_eq_some_iff.mp hj with hj | ⟨rfl, -⟩
    · exact hlonger (ih (hold hi hj) hj)
    · rcases getElem?_snoc_eq_some_iff.mp hi with hi | ⟨rfl, -⟩
      · obtain ⟨m, next, him, hm⟩ := (h.in_progress_or_stored hi).resolve_left nofun
        exact ⟨m, next, him, (List.getElem?_eq_some_iff.mp hm).1,
          getElem?_snoc_eq_some_iff.mpr (.inl hm)⟩
      · omega
  | failed h hnext ih =>
    rcases getElem?_snoc_eq_some_iff.mp hj with hj | ⟨-, hnew⟩
    · exact hlonger (ih (hold hi hj) hj)
    · cases hnew
  | succeeded h hnext ih =>
    rcases getElem?_snoc_eq_some_iff.mp hj with hj | ⟨-, hnew⟩
    · exact hlonger (ih (hold hi hj) hj)
    · cases hnew

/-- The attempt in progress was the last to begin. -/
theorem getLast?_of_running (h : Course log k (.running t c)) : log.getLast? = some (.begun t c) := by
  cases h with
  | begun h => simp

/-- What can be counted in a course. -/
theorem counts (h : Course log k p) :
    match p with
    | .idle => log.countP AttemptEvent.isBegun = k ∧ log.countP AttemptEvent.isStored = k ∧
        log.countP AttemptEvent.isSuccess = 0
    | .running _ _ => log.countP AttemptEvent.isBegun = k + 1 ∧
        log.countP AttemptEvent.isStored = k ∧ log.countP AttemptEvent.isSuccess = 0
    | .done => log.countP AttemptEvent.isBegun = k + 1 ∧
        log.countP AttemptEvent.isStored = k + 1 ∧ log.countP AttemptEvent.isSuccess = 1 := by
  induction h with
  | nil => exact ⟨rfl, rfl, rfl⟩
  | begun h t c ih =>
    obtain ⟨hbegun, hstored, hsuccess⟩ := ih
    simp [List.countP_append, hbegun, hstored, hsuccess, AttemptEvent.isBegun, AttemptEvent.isStored,
      AttemptEvent.isSuccess]
  | failed h hnext ih =>
    obtain ⟨hbegun, hstored, hsuccess⟩ := ih
    simp [List.countP_append, hbegun, hstored, hsuccess, AttemptEvent.isBegun, AttemptEvent.isStored,
      AttemptEvent.isSuccess, hnext]
  | succeeded h hnext ih =>
    obtain ⟨hbegun, hstored, hsuccess⟩ := ih
    simp [List.countP_append, hbegun, hstored, hsuccess, AttemptEvent.isBegun, AttemptEvent.isStored,
      AttemptEvent.isSuccess, hnext]

end Course

end DurableQueue
