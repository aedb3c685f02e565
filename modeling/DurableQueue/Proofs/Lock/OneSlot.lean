import DurableQueue.Proofs.Lock.LocalRun
import DurableQueue.Proofs.Lock.Ranks

/-!
The lock of one path among the locks of a process.

`LocalLocks.Isolates` ties the locks of a process to locks of which those of one path are kept: the slot of
the path is the same and its queues hold the same callers, by other numbers. Callers of the path take the same
steps on both sides (`LocalWait.Alike.step?`); callers of other paths have other queues, and what they do does
not reach this one (`LocalWait.IsElsewhere.step?`).
-/

namespace DurableQueue

variable {N Q Q' : Nat → Nat → Prop} {i i' n n' now : Nat}

/-- The same queue, with other numbers for its callers. -/
structure WakeQueue.Alike (N : Nat → Nat → Prop) (q q' : WakeQueue) : Prop where
  keepsWake : q.keepsWake = q'.keepsWake
  waiting : List.Forall₂ N q.waiting q'.waiting
  woken : List.Forall₂ N q.woken q'.woken
  users : List.Forall₂ N q.users q'.users

namespace WakeQueue.Alike

variable {q q' : WakeQueue}

theorem empty (N : Nat → Nat → Prop) : Alike N .empty .empty := ⟨rfl, .nil, .nil, .nil⟩

theorem imp {M : Nat → Nat → Prop} (h : Alike N q q') (hNM : ∀ i i', N i i' → M i i') : Alike M q q' :=
  ⟨h.keepsWake, h.waiting.imp hNM, h.woken.imp hNM, h.users.imp hNM⟩

theorem enter (h : Alike N q q') (hi : N i i') : Alike N (q.enter i) (q'.enter i') :=
  { h with users := forall₂_concat h.users hi }

theorem part (hN : IsOneToOne N) (h : Alike N q q') (hi : N i i') : Alike N (q.part i) (q'.part i') :=
  { h with users := hN.erase h.users hi }

theorem goOn (hN : IsOneToOne N) (h : Alike N q q') (hi : N i i') : Alike N (q.goOn i) (q'.goOn i') :=
  { h with woken := hN.erase h.woken hi }

theorem wakeOne (h : Alike N q q') : Alike N q.wakeOne q'.wakeOne := by
  cases hw : q.waiting with
  | nil =>
    have hw' : q'.waiting = [] := List.forall₂_nil_left_iff.mp (hw ▸ h.waiting)
    rw [wakeOne_of_nil hw, wakeOne_of_nil hw']
    exact { h with keepsWake := rfl }
  | cons first rest =>
    obtain ⟨first', rest', hfirst, hrest, hw'⟩ := List.forall₂_cons_left_iff.mp (hw ▸ h.waiting)
    rw [wakeOne_of_cons hw, wakeOne_of_cons hw']
    exact ⟨h.keepsWake, hrest, forall₂_concat h.woken hfirst, h.users⟩

theorem leave (hN : IsOneToOne N) (h : Alike N q q') (hi : N i i') : Alike N (q.leave i) (q'.leave i') := by
  unfold WakeQueue.leave
  rw [hN.contains_eq h.woken hi]
  split
  · exact (h.goOn hN hi).wakeOne
  · exact { h with waiting := hN.erase h.waiting hi }

theorem join (h : Alike N q q') (hi : N i i') :
    (q.join i).1 = (q'.join i').1 ∧ Alike N (q.join i).2 (q'.join i').2 := by
  unfold WakeQueue.join
  rw [h.keepsWake]
  split
  · exact ⟨rfl, { h with keepsWake := rfl }⟩
  · exact ⟨rfl, { h with keepsWake := rfl, waiting := forall₂_concat h.waiting hi }⟩

end WakeQueue.Alike

namespace LocalLocks

variable {l l' : LocalLocks} {path other : String}

theorem length_onQueue (l : LocalLocks) (n : Nat) (f : WakeQueue → WakeQueue) :
    (l.onQueue n f).queues.length = l.queues.length := List.length_modify _ _ _

theorem length_tryAcquire (l : LocalLocks) (path : String) (i : Nat) :
    l.queues.length ≤ (l.tryAcquire path i).2.queues.length := by
  unfold tryAcquire
  split
  · simp
  · split
    · exact Nat.le_of_eq (length_onQueue _ _ _).symm
    · exact Nat.le_refl _

theorem length_join (l : LocalLocks) (n i : Nat) : l.queues.length ≤ (l.join n i).2.queues.length := by
  unfold join
  split
  · exact Nat.le_refl _
  · exact Nat.le_of_eq (length_onQueue _ _ _).symm

theorem length_unlock (l : LocalLocks) (path : String) : (l.unlock path).queues.length = l.queues.length := by
  unfold unlock
  split
  · rfl
  · split
    · exact length_onQueue _ _ _
    · rfl

/-- The same slot, whose queue has another number. -/
structure SlotAlike (Q : Nat → Nat → Prop) (s s' : LockSlot) : Prop where
  isHeld : s.isHeld = s'.isHeld
  queue : Q s.queue s'.queue

/-- A queue with which the lock of a path has nothing to do. -/
structure IsElsewhere (l : LocalLocks) (Q : Nat → Nat → Prop) (n : Nat) : Prop where
  placed : n < l.queues.length
  apart : ∀ n', ¬Q n n'

/-- The locks of a process and the lock of one path by itself. `N` says which numbers callers have there, and
`Q` which numbers queues have. -/
structure Isolates (path : String) (N Q : Nat → Nat → Prop) (l l' : LocalLocks) : Prop where
  slot : Option.Rel (SlotAlike Q) (l.slot? path) (l'.slot? path)
  queues : ∀ n n', Q n n' → ∃ q q', l.queues[n]? = some q ∧ l'.queues[n']? = some q' ∧ q.Alike N q'
  one : IsOneToOne Q
  elsewhere : ∀ other ≠ path, ∀ s, l.slot? other = some s → l.IsElsewhere Q s.queue

/-- More queues are kept, and these are new. -/
structure Grows (l : LocalLocks) (Q Q' : Nat → Nat → Prop) : Prop where
  kept : ∀ n n', Q n n' → Q' n n'
  fresh : ∀ n n', Q' n n' → Q n n' ∨ l.queues.length ≤ n

theorem Grows.refl (l : LocalLocks) (Q : Nat → Nat → Prop) : l.Grows Q Q :=
  ⟨fun _ _ h => h, fun _ _ h => .inl h⟩

theorem IsElsewhere.grows {m : LocalLocks} (h : l.IsElsewhere Q n) (hgrows : l.Grows Q Q')
    (hlength : l.queues.length ≤ m.queues.length) : m.IsElsewhere Q' n where
  placed := Nat.lt_of_lt_of_le h.placed hlength
  apart n' hn := (hgrows.fresh n n' hn).elim (h.apart n') (Nat.not_le_of_lt h.placed)

namespace Isolates

theorem empty (path : String) (N : Nat → Nat → Prop) : Isolates path N (fun _ _ => False) .empty .empty where
  slot := .none
  queues := nofun
  one := nofun
  elsewhere := nofun

theorem imp {M : Nat → Nat → Prop} (h : Isolates path N Q l l') (hNM : ∀ i i', N i i' → M i i') :
    Isolates path M Q l l' where
  slot := h.slot
  queues n n' hn := by
    obtain ⟨q, q', hq, hq', halike⟩ := h.queues n n' hn
    exact ⟨q, q', hq, hq', halike.imp hNM⟩
  one := h.one
  elsewhere := h.elsewhere

theorem slot_cases (h : Isolates path N Q l l') : (l.slot? path = none ∧ l'.slot? path = none) ∨
    ∃ s s', l.slot? path = some s ∧ l'.slot? path = some s' ∧ s.isHeld = s'.isHeld ∧ Q s.queue s'.queue := by
  have hslot := h.slot
  generalize l.slot? path = o, l'.slot? path = o' at hslot
  cases hslot with
  | none => exact .inl ⟨rfl, rfl⟩
  | some hs => exact .inr ⟨_, _, rfl, rfl, hs.isHeld, hs.queue⟩

theorem isHeld_eq (h : Isolates path N Q l l') : l.isHeld path = l'.isHeld path := by
  rcases h.slot_cases with ⟨hs, hs'⟩ | ⟨s, s', hs, hs', hheld, -⟩
  · rw [isHeld, isHeld, hs, hs']
  · rw [isHeld_of_slot? hs, isHeld_of_slot? hs', hheld]

/-- Something happens to a queue of the path. -/
theorem onQueue (h : Isolates path N Q l l') (hn : Q n n') {f f' : WakeQueue → WakeQueue}
    (hf : ∀ q q', q.Alike N q' → (f q).Alike N (f' q')) :
    Isolates path N Q (l.onQueue n f) (l'.onQueue n' f') where
  slot := h.slot
  queues m m' hm := by
    obtain ⟨q, q', hq, hq', halike⟩ := h.queues m m' hm
    rw [getElem?_onQueue, getElem?_onQueue, hq, hq']
    by_cases heq : n = m
    · rw [if_pos heq, if_pos ((h.one _ _ _ _ hn hm).mp heq)]
      exact ⟨_, _, rfl, rfl, hf q q' halike⟩
    · rw [if_neg heq, if_neg fun heq' => heq ((h.one _ _ _ _ hn hm).mpr heq')]
      exact ⟨q, q', rfl, rfl, halike⟩
  one := h.one
  elsewhere other hother s hs := by
    obtain ⟨hplaced, hapart⟩ := h.elsewhere other hother s hs
    exact ⟨by rwa [LocalLocks.onQueue, List.length_modify], hapart⟩

/-- Something happens to another queue. -/
theorem onQueue_elsewhere (h : Isolates path N Q l l') (hn : ∀ n', ¬Q n n') (f : WakeQueue → WakeQueue) :
    Isolates path N Q (l.onQueue n f) l' where
  slot := h.slot
  queues m m' hm := by
    obtain ⟨q, q', hq, hq', halike⟩ := h.queues m m' hm
    have hne : n ≠ m := fun heq => hn m' (heq ▸ hm)
    rw [getElem?_onQueue, if_neg hne]
    exact ⟨q, q', hq, hq', halike⟩
  one := h.one
  elsewhere other hother s hs := by
    obtain ⟨hplaced, hapart⟩ := h.elsewhere other hother s hs
    exact ⟨by rwa [LocalLocks.onQueue, List.length_modify], hapart⟩

theorem setHeld (h : Isolates path N Q l l') (isHeld : Bool) :
    Isolates path N Q (l.setHeld path isHeld) (l'.setHeld path isHeld) where
  slot := by
    rw [slot?_setHeld, slot?_setHeld, if_pos rfl, if_pos rfl]
    rcases h.slot_cases with ⟨hs, hs'⟩ | ⟨s, s', hs, hs', -, hqueue⟩
    · rw [hs, hs']
      exact .none
    · rw [hs, hs']
      exact .some ⟨rfl, hqueue⟩
  queues := h.queues
  one := h.one
  elsewhere other hother s hs := by
    rw [slot?_setHeld, if_neg hother] at hs
    obtain ⟨hplaced, hapart⟩ := h.elsewhere other hother s hs
    exact ⟨hplaced, hapart⟩

theorem setHeld_elsewhere (h : Isolates path N Q l l') (hother : other ≠ path) (isHeld : Bool) :
    Isolates path N Q (l.setHeld other isHeld) l' where
  slot := by
    rw [slot?_setHeld, if_neg hother.symm]
    exact h.slot
  queues := h.queues
  one := h.one
  elsewhere o ho s hs := by
    rw [slot?_setHeld] at hs
    split at hs
    · obtain ⟨s', hs', rfl⟩ := Option.map_eq_some_iff.mp hs
      obtain ⟨hplaced, hapart⟩ := h.elsewhere o ho s' hs'
      exact ⟨hplaced, hapart⟩
    · obtain ⟨hplaced, hapart⟩ := h.elsewhere o ho s hs
      exact ⟨hplaced, hapart⟩

theorem remove (h : Isolates path N Q l l') : Isolates path N Q
    { l with slots := l.slots.filter fun s => s.path != path }
    { l' with slots := l'.slots.filter fun s => s.path != path } where
  slot := by
    rw [slot?_remove, slot?_remove, if_pos rfl, if_pos rfl]
    exact .none
  queues := h.queues
  one := h.one
  elsewhere other hother s hs := by
    rw [slot?_remove, if_neg hother] at hs
    obtain ⟨hplaced, hapart⟩ := h.elsewhere other hother s hs
    exact ⟨hplaced, hapart⟩

theorem remove_elsewhere (h : Isolates path N Q l l') (hother : other ≠ path) : Isolates path N Q
    { l with slots := l.slots.filter fun s => s.path != other } l' where
  slot := by
    rw [slot?_remove, if_neg hother.symm]
    exact h.slot
  queues := h.queues
  one := h.one
  elsewhere o ho s hs := by
    rw [slot?_remove] at hs
    split at hs
    · cases hs
    · obtain ⟨hplaced, hapart⟩ := h.elsewhere o ho s hs
      exact ⟨hplaced, hapart⟩

/-- Freeing the lock of the path. -/
theorem unlock (h : Isolates path N Q l l') : Isolates path N Q (l.unlock path) (l'.unlock path) := by
  unfold LocalLocks.unlock
  rcases h.slot_cases with ⟨hs, hs'⟩ | ⟨s, s', hs, hs', -, hqueue⟩
  · rw [hs, hs']
    exact h
  · obtain ⟨q, q', hq, hq', halike⟩ := h.queues _ _ hqueue
    have hused : l.isUsed s.queue = l'.isUsed s'.queue := by
      have hempty : q.users.isEmpty = q'.users.isEmpty := by
        rw [Bool.eq_iff_iff, List.isEmpty_iff_length_eq_zero, List.isEmpty_iff_length_eq_zero,
          halike.users.length_eq]
      rw [isUsed, isUsed, hq, hq', Option.any_some, Option.any_some, hempty]
    simp only [hs, hs', hused]
    split
    · exact (h.setHeld false).onQueue hqueue fun _ _ => WakeQueue.Alike.wakeOne
    · exact h.remove

theorem unlock_elsewhere (h : Isolates path N Q l l') (hother : other ≠ path) :
    Isolates path N Q (l.unlock other) l' := by
  unfold LocalLocks.unlock
  split
  · exact h
  · rename_i s hs
    split
    · exact (h.setHeld_elsewhere hother false).onQueue_elsewhere (h.elsewhere other hother s hs).apart _
    · exact h.remove_elsewhere hother

theorem lt_length (h : Isolates path N Q l l') (hn : Q n n') :
    n < l.queues.length ∧ n' < l'.queues.length := by
  obtain ⟨q, q', hq, hq', -⟩ := h.queues n n' hn
  exact ⟨(List.getElem?_eq_some_iff.mp hq).1, (List.getElem?_eq_some_iff.mp hq').1⟩

/-- A slot is made for the path, with a new queue. -/
theorem add (h : Isolates path N Q l l') (hs : l.slot? path = none) (hs' : l'.slot? path = none) :
    Isolates path N (fun n n' => Q n n' ∨ n = l.queues.length ∧ n' = l'.queues.length)
      ⟨l.slots ++ [⟨path, true, l.queues.length⟩], l.queues ++ [.empty]⟩
      ⟨l'.slots ++ [⟨path, true, l'.queues.length⟩], l'.queues ++ [.empty]⟩ where
  slot := by
    rw [slot?_add _ _ _ _ hs, slot?_add _ _ _ _ hs', if_pos rfl, if_pos rfl]
    exact .some ⟨rfl, .inr ⟨rfl, rfl⟩⟩
  queues n n' hn := by
    rcases hn with hn | ⟨rfl, rfl⟩
    · obtain ⟨q, q', hq, hq', halike⟩ := h.queues n n' hn
      obtain ⟨hlt, hlt'⟩ := h.lt_length hn
      exact ⟨q, q', by rwa [List.getElem?_append_left hlt], by rwa [List.getElem?_append_left hlt'], halike⟩
    · exact ⟨.empty, .empty, List.getElem?_concat_length, List.getElem?_concat_length, .empty N⟩
  one n n' m m' hn hm := by
    rcases hn with hn | ⟨rfl, rfl⟩
    · rcases hm with hm | ⟨rfl, rfl⟩
      · exact h.one n n' m m' hn hm
      · obtain ⟨hlt, hlt'⟩ := h.lt_length hn
        exact iff_of_false (Nat.ne_of_lt hlt) (Nat.ne_of_lt hlt')
    · rcases hm with hm | ⟨rfl, rfl⟩
      · obtain ⟨hlt, hlt'⟩ := h.lt_length hm
        exact iff_of_false (Nat.ne_of_gt hlt) (Nat.ne_of_gt hlt')
      · exact iff_of_true rfl rfl
  elsewhere other hother s hslot := by
    rw [slot?_add _ _ _ _ hs, if_neg hother] at hslot
    obtain ⟨hplaced, hapart⟩ := h.elsewhere other hother s hslot
    refine ⟨by simpa using Nat.lt_succ_of_lt hplaced, fun n' hn => ?_⟩
    rcases hn with hn | ⟨heq, -⟩
    · exact hapart n' hn
    · exact Nat.ne_of_lt hplaced heq

/-- A slot is made for another path. -/
theorem add_elsewhere (h : Isolates path N Q l l') (hother : other ≠ path) (hs : l.slot? other = none) :
    Isolates path N Q ⟨l.slots ++ [⟨other, true, l.queues.length⟩], l.queues ++ [.empty]⟩ l' where
  slot := by
    rw [slot?_add _ _ _ _ hs, if_neg hother.symm]
    exact h.slot
  queues n n' hn := by
    obtain ⟨q, q', hq, hq', halike⟩ := h.queues n n' hn
    exact ⟨q, q', by rwa [List.getElem?_append_left (h.lt_length hn).1], hq', halike⟩
  one := h.one
  elsewhere o ho s hslot := by
    rw [slot?_add _ _ _ _ hs] at hslot
    split at hslot
    · cases hslot
      exact ⟨by simp, fun n' hn => Nat.lt_irrefl _ (h.lt_length hn).1⟩
    · obtain ⟨hplaced, hapart⟩ := h.elsewhere o ho s hslot
      exact ⟨by simpa using Nat.lt_succ_of_lt hplaced, hapart⟩

/-- A caller tries to take the lock of the path. -/
theorem tryAcquire (h : Isolates path N Q l l') (hi : N i i') :
    ∃ Q', l.Grows Q Q' ∧ Option.Rel Q' (l.tryAcquire path i).1 (l'.tryAcquire path i').1 ∧
      Isolates path N Q' (l.tryAcquire path i).2 (l'.tryAcquire path i').2 := by
  unfold LocalLocks.tryAcquire
  rcases h.slot_cases with ⟨hs, hs'⟩ | ⟨s, s', hs, hs', hheld, hqueue⟩
  · simp only [hs, hs']
    refine ⟨_, ⟨fun _ _ => .inl, fun n n' hn => ?_⟩, .none, h.add hs hs'⟩
    exact hn.imp_right fun hnew => Nat.le_of_eq hnew.1.symm
  · refine ⟨Q, .refl l Q, ?_⟩
    simp only [hs, hs', ← hheld]
    split
    · exact ⟨.some hqueue, h.onQueue hqueue fun _ _ halike => halike.enter hi⟩
    · exact ⟨.none, h.setHeld true⟩

/-- A caller tries to take the lock of another path. -/
theorem tryAcquire_elsewhere (h : Isolates path N Q l l') (hother : other ≠ path) (i : Nat) :
    Isolates path N Q (l.tryAcquire other i).2 l' ∧
      ∀ n, (l.tryAcquire other i).1 = some n → l.IsElsewhere Q n := by
  unfold LocalLocks.tryAcquire
  split
  · rename_i hs
    exact ⟨h.add_elsewhere hother hs, nofun⟩
  · rename_i s hs
    have helsewhere := h.elsewhere other hother s hs
    split
    · refine ⟨h.onQueue_elsewhere helsewhere.apart _, fun n hn => ?_⟩
      cases hn
      exact helsewhere
    · exact ⟨h.setHeld_elsewhere hother true, nofun⟩

end Isolates

end LocalLocks

/-- The same place on the way to a lock, at a queue by another number. -/
inductive LocalStage.Alike (Q : Nat → Nat → Prop) : LocalStage → LocalStage → Prop where
  | trying : Alike Q .trying .trying
  | joining {n n' : Nat} (queue : Q n n') : Alike Q (.joining n) (.joining n')
  | checking {n n' : Nat} (queue : Q n n') (wasKept : Bool) :
    Alike Q (.checking n wasKept) (.checking n' wasKept)
  | sleeping {n n' : Nat} (queue : Q n n') : Alike Q (.sleeping n) (.sleeping n')
  | leaving {n n' : Nat} (queue : Q n n') (gaveUp : Bool) : Alike Q (.leaving n gaveUp) (.leaving n' gaveUp)
  | parting {n n' : Nat} (queue : Q n n') (gaveUp : Bool) : Alike Q (.parting n gaveUp) (.parting n' gaveUp)
  | «over» (isAcquired : Bool) : Alike Q (.over isAcquired) (.over isAcquired)

theorem LocalStage.Alike.imp {s s' : LocalStage} (h : Alike Q s s') (hQ : ∀ n n', Q n n' → Q' n n') :
    Alike Q' s s' := by
  cases h with
  | trying => exact .trying
  | joining queue => exact .joining (hQ _ _ queue)
  | checking queue wasKept => exact .checking (hQ _ _ queue) wasKept
  | sleeping queue => exact .sleeping (hQ _ _ queue)
  | leaving queue gaveUp => exact .leaving (hQ _ _ queue) gaveUp
  | parting queue gaveUp => exact .parting (hQ _ _ queue) gaveUp
  | «over» isAcquired => exact .over isAcquired

/-- The same caller, at a queue by another number. -/
def LocalWait.Alike (Q : Nat → Nat → Prop) (w w' : LocalWait) : Prop :=
  ∃ stage, w.stage.Alike Q stage ∧ w' = { w with stage }

namespace LocalWait

open LocalLocks

variable {w w' : LocalWait} {l l' : LocalLocks} {path : String}

theorem Alike.imp (h : w.Alike Q w') (hQ : ∀ n n', Q n n' → Q' n n') : w.Alike Q' w' := by
  obtain ⟨stage, hstage, rfl⟩ := h
  exact ⟨stage, hstage.imp hQ, rfl⟩

/-- What a step gives among the locks of a process, and with the lock of a path by itself. -/
structure StepsAlike (path : String) (N Q : Nat → Nat → Prop) (r r' : LocalWait × LocalLocks) : Prop where
  wait : r.1.Alike Q r'.1
  locks : Isolates path N Q r.2 r'.2

/-- A caller of the path takes the same steps by itself. -/
theorem Alike.step? (hN : IsOneToOne N) (hi : N i i') (h : Isolates w.path N Q l l') (halike : w.Alike Q w')
    (now : Nat) :
    ∃ Q', l.Grows Q Q' ∧ Option.Rel (StepsAlike w.path N Q') (w.step? i now l) (w'.step? i' now l') := by
  obtain ⟨stage', hstage', rfl⟩ := halike
  have hstay {s s' : LocalStage} (hs : s.Alike Q s') {k k' : LocalLocks} (hk : Isolates w.path N Q k k') :
      Option.Rel (StepsAlike w.path N Q) (some ({ w with stage := s }, k))
        (some ({ w with stage := s' }, k')) :=
    .some ⟨⟨s', hs, rfl⟩, hk⟩
  obtain ⟨path, deadline, stage⟩ := w
  unfold LocalWait.step?
  cases hstage' with
  | trying =>
    obtain ⟨Q', hgrows, hanswer, hlocks⟩ := h.tryAcquire hi
    refine ⟨Q', hgrows, ?_⟩
    simp only
    generalize l.tryAcquire path i = r, l'.tryAcquire path i' = r' at hanswer hlocks
    obtain ⟨o, k⟩ := r
    obtain ⟨o', k'⟩ := r'
    cases hanswer with
    | none => exact .some ⟨⟨_, .over true, rfl⟩, hlocks⟩
    | some hqueue => exact .some ⟨⟨_, .joining hqueue, rfl⟩, hlocks⟩
  | @joining n n' hqueue =>
    refine ⟨Q, .refl l Q, ?_⟩
    obtain ⟨q, q', hq, hq', hqs⟩ := h.queues _ _ hqueue
    have hkept := (hqs.join hi).1
    simp only [join, hq, hq', hkept]
    exact hstay (.checking hqueue _) (h.onQueue hqueue fun _ _ hqs => (hqs.join hi).2)
  | @checking n n' hqueue wasKept =>
    refine ⟨Q, .refl l Q, ?_⟩
    cases wasKept with
    | true => exact hstay (.parting hqueue false) h
    | false =>
      simp only [h.isHeld_eq]
      split
      · exact hstay (.sleeping hqueue) h
      · exact hstay (.leaving hqueue false) h
  | @sleeping n n' hqueue =>
    refine ⟨Q, .refl l Q, ?_⟩
    have hwoken : l.isWoken n i = l'.isWoken n' i' := by
      obtain ⟨q, q', hq, hq', hqs⟩ := h.queues _ _ hqueue
      rw [isWoken, isWoken, hq, hq', Option.any_some, Option.any_some, hN.contains_eq hqs.woken hi]
    simp only [hwoken]
    split
    · exact hstay (.parting hqueue false) (h.onQueue hqueue fun _ _ hqs => hqs.goOn hN hi)
    · split
      · exact hstay (.leaving hqueue true) h
      · exact .none
  | leaving hqueue gaveUp =>
    exact ⟨Q, .refl l Q, hstay (.parting hqueue gaveUp) (h.onQueue hqueue fun _ _ hqs => hqs.leave hN hi)⟩
  | parting hqueue gaveUp =>
    have hlocks := h.onQueue hqueue fun _ _ hqs => hqs.part hN hi
    refine ⟨Q, .refl l Q, ?_⟩
    cases gaveUp with
    | true => exact hstay (.over false) hlocks
    | false => exact hstay .trying hlocks
  | «over» isAcquired => exact ⟨Q, .refl l Q, .none⟩

/-- A caller that is taken away leaves the path as it leaves it by itself. -/
theorem Alike.abandon (hN : IsOneToOne N) (hi : N i i') (h : Isolates path N Q l l') (halike : w.Alike Q w') :
    Isolates path N Q (w.abandon i l) (w'.abandon i' l') := by
  obtain ⟨stage', hstage', rfl⟩ := halike
  obtain ⟨_, _, stage⟩ := w
  unfold LocalWait.abandon
  cases hstage' with
  | trying => exact h
  | joining hqueue => exact h.onQueue hqueue fun _ _ hqs => hqs.part hN hi
  | checking hqueue wasKept =>
    cases wasKept with
    | true => exact h.onQueue hqueue fun _ _ hqs => hqs.part hN hi
    | false => exact h.onQueue hqueue fun _ _ hqs => (hqs.leave hN hi).part hN hi
  | sleeping hqueue => exact h.onQueue hqueue fun _ _ hqs => (hqs.leave hN hi).part hN hi
  | leaving hqueue gaveUp => exact h.onQueue hqueue fun _ _ hqs => (hqs.leave hN hi).part hN hi
  | parting hqueue gaveUp => exact h.onQueue hqueue fun _ _ hqs => hqs.part hN hi
  | «over» isAcquired => exact h

/-- What a caller of another path refers to has nothing to do with this one. -/
def IsElsewhere (w : LocalWait) (l : LocalLocks) (Q : Nat → Nat → Prop) : Prop :=
  ∀ n, w.stage.queue? = some n → l.IsElsewhere Q n

theorem IsElsewhere.grows {m : LocalLocks} (h : w.IsElsewhere l Q) (hgrows : l.Grows Q Q')
    (hlength : l.queues.length ≤ m.queues.length) : w.IsElsewhere m Q' :=
  fun n hn => (h n hn).grows hgrows hlength

/-- No step forgets a queue, and none changes what is waited for. -/
theorem keeps_step? {r : LocalWait × LocalLocks} (hstep : w.step? i now l = some r) :
    r.1.path = w.path ∧ l.queues.length ≤ r.2.queues.length := by
  unfold LocalWait.step? at hstep
  have hon (n : Nat) (f : WakeQueue → WakeQueue) : l.queues.length ≤ (l.onQueue n f).queues.length :=
    Nat.le_of_eq (length_onQueue l n f).symm
  cases hstage : w.stage with
  | trying =>
    simp only [hstage] at hstep
    have hlength := l.length_tryAcquire w.path i
    generalize l.tryAcquire w.path i = answer at hstep hlength
    obtain ⟨o, k⟩ := answer
    cases o <;> cases hstep <;> exact ⟨rfl, hlength⟩
  | joining n =>
    simp only [hstage] at hstep
    cases hstep
    exact ⟨rfl, l.length_join n i⟩
  | checking n wasKept =>
    cases wasKept with
    | true =>
      simp only [hstage] at hstep
      cases hstep
      exact ⟨rfl, Nat.le_refl _⟩
    | false =>
      simp only [hstage] at hstep
      split at hstep <;> cases hstep <;> exact ⟨rfl, Nat.le_refl _⟩
  | sleeping n =>
    simp only [hstage] at hstep
    split at hstep
    · cases hstep
      exact ⟨rfl, hon _ _⟩
    · split at hstep <;> cases hstep
      exact ⟨rfl, Nat.le_refl _⟩
  | leaving n gaveUp =>
    simp only [hstage] at hstep
    cases hstep
    exact ⟨rfl, hon _ _⟩
  | parting n gaveUp =>
    simp only [hstage] at hstep
    cases hstep
    exact ⟨rfl, hon _ _⟩
  | «over» isAcquired =>
    simp only [hstage] at hstep
    cases hstep

/-- A caller of another path does not reach this one. -/
theorem IsElsewhere.step? (h : Isolates path N Q l l') (hpath : w.path ≠ path) (hw : w.IsElsewhere l Q)
    {r : LocalWait × LocalLocks} (hstep : w.step? i now l = some r) :
    Isolates path N Q r.2 l' ∧ r.1.IsElsewhere r.2 Q := by
  have hlength := (keeps_step? hstep).2
  -- Whatever it refers to afterwards it referred to before, but for the queue that it finds when it tries.
  suffices Isolates path N Q r.2 l' ∧ r.1.IsElsewhere l Q from ⟨this.1, this.2.grows (.refl l Q) hlength⟩
  have hsame {s : LocalStage} {k : LocalLocks} (hs : s.queue? = w.stage.queue?)
      (hk : Isolates path N Q k l') :
      Isolates path N Q k l' ∧ ({ w with stage := s } : LocalWait).IsElsewhere l Q :=
    ⟨hk, fun n hn => hw n (hs.symm.trans hn)⟩
  have hon (n : Nat) (hn : w.stage.queue? = some n) (f : WakeQueue → WakeQueue) :
      Isolates path N Q (l.onQueue n f) l' := h.onQueue_elsewhere (hw n hn).apart f
  unfold LocalWait.step? at hstep
  cases hstage : w.stage with
  | trying =>
    simp only [hstage] at hstep
    obtain ⟨hlocks, hfound⟩ := h.tryAcquire_elsewhere hpath i
    generalize l.tryAcquire w.path i = answer at hstep hlocks hfound
    obtain ⟨o, k⟩ := answer
    cases o with
    | none =>
      cases hstep
      exact ⟨hlocks, nofun⟩
    | some queue =>
      cases hstep
      refine ⟨hlocks, fun n hn => ?_⟩
      cases hn
      exact hfound queue rfl
  | joining n =>
    simp only [hstage] at hstep
    cases hstep
    refine hsame (by rw [hstage]; rfl) ?_
    unfold LocalLocks.join
    split
    · exact h
    · exact hon n (by rw [hstage]; rfl) _
  | checking n wasKept =>
    cases wasKept with
    | true =>
      simp only [hstage] at hstep
      cases hstep
      exact hsame (by rw [hstage]; rfl) h
    | false =>
      simp only [hstage] at hstep
      split at hstep <;> cases hstep <;> exact hsame (by rw [hstage]; rfl) h
  | sleeping n =>
    simp only [hstage] at hstep
    split at hstep
    · cases hstep
      exact hsame (by rw [hstage]; rfl) (hon n (by rw [hstage]; rfl) _)
    · split at hstep <;> cases hstep
      exact hsame (by rw [hstage]; rfl) h
  | leaving n gaveUp =>
    simp only [hstage] at hstep
    cases hstep
    exact hsame (by rw [hstage]; rfl) (hon n (by rw [hstage]; rfl) _)
  | parting n gaveUp =>
    simp only [hstage] at hstep
    cases hstep
    refine ⟨hon n (by rw [hstage]; rfl) _, fun m hm => ?_⟩
    cases gaveUp <;> cases hm
  | «over» isAcquired =>
    simp only [hstage] at hstep
    cases hstep

theorem IsElsewhere.abandon (h : Isolates path N Q l l') (hw : w.IsElsewhere l Q) (i : Nat) :
    Isolates path N Q (w.abandon i l) l' := by
  have hon (n : Nat) (hn : w.stage.queue? = some n) (f : WakeQueue → WakeQueue) :
      Isolates path N Q (l.onQueue n f) l' := h.onQueue_elsewhere (hw n hn).apart f
  unfold LocalWait.abandon
  cases hstage : w.stage with
  | trying | «over» isAcquired => exact h
  | checking n wasKept => cases wasKept <;> exact hon n (by rw [hstage]; rfl) _
  | joining n | sleeping n | leaving n gaveUp | parting n gaveUp => exact hon n (by rw [hstage]; rfl) _

theorem length_abandon (w : LocalWait) (i : Nat) (l : LocalLocks) :
    (w.abandon i l).queues.length = l.queues.length := by
  unfold LocalWait.abandon
  cases w.stage with
  | trying | «over» isAcquired => rfl
  | checking n wasKept => cases wasKept <;> exact length_onQueue _ _ _
  | joining n | sleeping n | leaving n gaveUp | parting n gaveUp => exact length_onQueue _ _ _

end LocalWait

end DurableQueue
