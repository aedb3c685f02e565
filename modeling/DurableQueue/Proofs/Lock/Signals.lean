import DurableQueue.Lock.State
import Mathlib.Data.List.DropRight

/-!
What signals make of a contender, however many there are and in whatever order they come.

Only the signals after the last reset count (`LockState.after_sinceReset`). Among these a contender without a node
looks for the first creation, one that waits looks for the word that its node is the first, and one that holds
its node looks for nothing. So the state can be read off the signals themselves, and a signal that comes late,
twice or out of order is as good as none (`LockState.state_from_signals`).
-/

namespace DurableQueue

namespace LockSignal

/-- The signals after the last one that leads back to the beginning. -/
def sinceReset (signals : List LockSignal) : List LockSignal := signals.rtakeWhile fun x => !x.resets

/-- Whether a signal that comes after others changes nothing. So it is with all that happens to the connection and
to the node before, with a further creation, and with the word that no node yet is the first. -/
def IsIdleAfter (earlier : List LockSignal) : LockSignal → Prop
  | predecessorDeleted | sessionLost | sessionRestored => True
  | created _ => ∃ node, created node ∈ sinceReset earlier
  | acquired => ∀ node, created node ∉ sinceReset earlier
  | sessionExpired | timedOut => False

variable {signals : List LockSignal}

/-- All signals since the last reset, and none before them that is not followed by a reset. -/
theorem exists_sinceReset (signals : List LockSignal) :
    ∃ earlier, signals = earlier ++ sinceReset signals ∧
      (earlier = [] ∨ ∃ first reset, earlier = first ++ [reset] ∧ reset.resets = true) := by
  refine ⟨signals.rdropWhile fun x => !x.resets, List.rdropWhile_append_rtakeWhile.symm, ?_⟩
  by_cases hempty : signals.rdropWhile (fun x => !x.resets) = []
  · exact .inl hempty
  · have hlast := List.rdropWhile_last_not _ _ hempty
    refine .inr ⟨_, _, (List.dropLast_append_getLast hempty).symm, ?_⟩
    simpa using hlast

/-- Where a node was created, there is a first one. -/
theorem exists_first_created {node : String} (h : created node ∈ signals) :
    ∃ before first rest, signals = before ++ created first :: rest ∧ ∀ other, created other ∉ before := by
  induction signals with
  | nil => cases h
  | cons x rest ih =>
    by_cases hx : ∃ first, x = created first
    · obtain ⟨first, rfl⟩ := hx
      exact ⟨[], first, rest, rfl, fun other => List.not_mem_nil⟩
    · have hrest : created node ∈ rest := by
        rcases List.mem_cons.mp h with heq | hrest
        · exact absurd ⟨node, heq.symm⟩ hx
        · exact hrest
      obtain ⟨before, first, later, rfl, hbefore⟩ := ih hrest
      refine ⟨x :: before, first, later, rfl, fun other hother => ?_⟩
      rcases List.mem_cons.mp hother with heq | hother
      · exact hx ⟨other, heq.symm⟩
      · exact hbefore other hother

theorem resets_of_mem_sinceReset {x : LockSignal} (h : x ∈ sinceReset signals) : x.resets = false := by
  have hkept := List.mem_rtakeWhile_imp h
  simpa using hkept

end LockSignal

namespace LockState

open LockSignal

variable {s : LockState} {signals part : List LockSignal} {x : LockSignal} {node : String}

theorem after_append (s : LockState) (first second : List LockSignal) :
    s.after (first ++ second) = (s.after first).after second := List.foldl_append

/-- A contender that owns no node waits for the creation of one. -/
theorem next_unlocked (h : ∀ node, x ≠ .created node) : unlocked.next x = unlocked := by
  cases x with
  | created node => exact absurd rfl (h node)
  | _ => rfl

/-- A contender that waits goes on to wait until its node is the first. -/
theorem next_waiting (hreset : x.resets = false) (hfirst : x ≠ .acquired) :
    (waiting node).next x = waiting node := by
  cases x with
  | acquired => exact absurd rfl hfirst
  | sessionExpired | timedOut => cases hreset
  | _ => rfl

/-- A contender that holds its node does so until it is reset. -/
theorem next_held (hreset : x.resets = false) : (held node).next x = held node := by
  cases x with
  | sessionExpired | timedOut => cases hreset
  | _ => rfl

/-- Signals that each leave a state alone lead nowhere together. -/
theorem after_of_fixed (h : ∀ x ∈ signals, s.next x = s) : s.after signals = s := by
  induction signals with
  | nil => rfl
  | cons x rest ih =>
    have hrest := ih fun y hy => h y (List.mem_cons_of_mem x hy)
    calc s.after (x :: rest) = (s.next x).after rest := rfl
      _ = s.after rest := by rw [h x List.mem_cons_self]
      _ = s := hrest

theorem after_unlocked (h : ∀ node, .created node ∉ part) : unlocked.after part = unlocked := by
  refine after_of_fixed fun x hx => next_unlocked fun node hcreated => ?_
  exact h node (hcreated ▸ hx)

theorem after_held (h : ∀ x ∈ part, x.resets = false) : (held node).after part = held node :=
  after_of_fixed fun x hx => next_held (h x hx)

theorem after_waiting (h : ∀ x ∈ part, x.resets = false) :
    (waiting node).after part = if .acquired ∈ part then held node else waiting node := by
  by_cases hfirst : .acquired ∈ part
  · -- the first such word counts, and what follows it does not matter
    obtain ⟨before, rest, rfl, hbefore⟩ := List.eq_append_cons_of_mem hfirst
    have hquiet : (waiting node).after before = waiting node := by
      refine after_of_fixed fun x hx => next_waiting (h x (List.mem_append_left _ hx)) ?_
      rintro rfl
      exact hbefore hx
    rw [if_pos hfirst, after_append, hquiet]
    exact after_held fun x hx => h x (List.mem_append_right _ (List.mem_cons_of_mem _ hx))
  · rw [if_neg hfirst]
    refine after_of_fixed fun x hx => next_waiting (h x hx) ?_
    rintro rfl
    exact hfirst hx

/-- A reset forgets what came before it. -/
theorem after_sinceReset (signals : List LockSignal) :
    unlocked.after signals = unlocked.after (sinceReset signals) := by
  obtain ⟨earlier, hsplit, rfl | ⟨first, reset, rfl, hreset⟩⟩ := exists_sinceReset signals
  · exact congrArg unlocked.after hsplit
  · have hback : unlocked.after (first ++ [reset]) = unlocked := by
      rw [after_append]
      exact next_of_resets _ hreset
    rw [hsplit, after_append, hback, ← hsplit]

/-- A contender comes as far as the first node that was created for it since the last reset. -/
theorem after_of_created {before rest : List LockSignal}
    (hsplit : sinceReset signals = before ++ .created node :: rest) (hfirst : ∀ other, .created other ∉ before) :
    unlocked.after signals = if .acquired ∈ rest then held node else waiting node := by
  have hquiet : ∀ x ∈ rest, x.resets = false := by
    intro x hx
    have hsince : x ∈ sinceReset signals := by
      rw [hsplit]
      exact List.mem_append_right _ (List.mem_cons_of_mem _ hx)
    exact resets_of_mem_sinceReset hsince
  calc unlocked.after signals = (unlocked.after before).after (.created node :: rest) := by
        rw [after_sinceReset, hsplit, after_append]
    _ = (waiting node).after rest := by rw [after_unlocked hfirst]; rfl
    _ = if .acquired ∈ rest then held node else waiting node := after_waiting hquiet

/-- A contender owns a node as soon as one was created for it since the last reset. -/
theorem after_eq_unlocked_iff : unlocked.after signals = unlocked ↔ ∀ node, .created node ∉ sinceReset signals := by
  constructor
  · intro hunlocked node hcreated
    obtain ⟨before, first, rest, hsplit, hfirst⟩ := exists_first_created hcreated
    rw [after_of_created hsplit hfirst] at hunlocked
    split at hunlocked <;> cases hunlocked
  · intro h
    rw [after_sinceReset]
    exact after_unlocked h

/-- An idle signal leaves a contender where it is. -/
theorem next_of_isIdleAfter {earlier : List LockSignal} (h : x.IsIdleAfter earlier) :
    (unlocked.after earlier).next x = unlocked.after earlier := by
  cases x with
  | predecessorDeleted | sessionLost | sessionRestored => cases unlocked.after earlier <;> rfl
  | created other =>
    obtain ⟨node, hcreated⟩ := h
    have howns : unlocked.after earlier ≠ unlocked := fun hnone => after_eq_unlocked_iff.mp hnone node hcreated
    cases hstate : unlocked.after earlier with
    | unlocked => exact absurd hstate howns
    | waiting own => rfl
    | held own => rfl
  | acquired =>
    rw [after_eq_unlocked_iff.mpr h]
    rfl
  | sessionExpired | timedOut => exact h.elim

/-- The state of a contender, read off the signals since the last reset. Without a creation among them it owns no
node. Else it owns the first node that was created: it holds it if the word came after that that its node is the
first, and waits if not. A signal that is idle where it stands may as well not have come. -/
theorem state_from_signals (signals : List LockSignal) :
    (∃ earlier, signals = earlier ++ sinceReset signals ∧
      (earlier = [] ∨ ∃ first reset, earlier = first ++ [reset] ∧ reset.resets = true) ∧
      ∀ x ∈ sinceReset signals, x.resets = false) ∧
    ((∀ node, .created node ∉ sinceReset signals) → unlocked.after signals = unlocked) ∧
    (∀ before node rest, sinceReset signals = before ++ .created node :: rest →
      (∀ other, .created other ∉ before) →
      (.acquired ∈ rest → unlocked.after signals = held node) ∧
      (.acquired ∉ rest → unlocked.after signals = waiting node)) ∧
    ∀ earlier x later, signals = earlier ++ x :: later → x.IsIdleAfter earlier →
      unlocked.after signals = unlocked.after (earlier ++ later) := by
  refine ⟨?_, after_eq_unlocked_iff.mpr, ?_, ?_⟩
  · obtain ⟨earlier, hsplit, hearlier⟩ := exists_sinceReset signals
    exact ⟨earlier, hsplit, hearlier, fun x hx => resets_of_mem_sinceReset hx⟩
  · intro before node rest hsplit hfirst
    have hstate := after_of_created hsplit hfirst
    refine ⟨fun hacquired => ?_, fun hacquired => ?_⟩
    · rw [hstate, if_pos hacquired]
    · rw [hstate, if_neg hacquired]
  · rintro earlier x later rfl hidle
    calc unlocked.after (earlier ++ x :: later) = ((unlocked.after earlier).next x).after later :=
          after_append unlocked earlier (x :: later)
      _ = (unlocked.after earlier).after later := by rw [next_of_isIdleAfter hidle]
      _ = unlocked.after (earlier ++ later) := (after_append unlocked earlier later).symm

/-- A second creation, a lost connection, an early word: the first node is held all the same. -/
example : unlocked.after [.created "a", .acquired, .sessionExpired, .acquired, .created "b", .created "c",
    .sessionLost, .acquired, .predecessorDeleted] = held "b" := by decide

end LockState

end DurableQueue
