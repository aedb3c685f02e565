import DurableQueue.Proofs.Dispatch.ActionTurn
import DurableQueue.Proofs.Dispatch.Budget
import DurableQueue.Proofs.Dispatch.Course

/-!
Attempts over a run in normal operation.

Claims that wait for an attempt, and claims that an attempt was begun for, are stored as they are, and no
two of them are of one entry. What is told of the attempts on an entry is a course that fits to that: it
is idle while the entry has no attempt, and in progress with the one attempt otherwise. This is
`Bus.IsKept`; every turn keeps it.
-/

namespace DurableQueue

/-- How many failed attempts are booked for an entry once its claim is resolved. -/
theorem Store.Resolves.failures_claim {s s' : Store} {claim next : Entry} {now : Timestamp}
    (h : s.Resolves claim next now s') (hs' : s'.IsWellFormed) (hanswers : next.Answers claim)
    {limit : Nat} (hspare : claim.errorCount.toNat < limit) (hlimit : limit < UInt32.size) :
    s'.failures claim.id =
      if next.state = .processed then claim.errorCount.toNat else claim.errorCount.toNat + 1 := by
  rw [show claim.id = (Store.resolved claim next now).id from rfl, Store.failures_eq hs' h.resolved]
  simp only [Store.resolved, hanswers.errorCount]
  split
  · simp
  · have hcount : (countFailure claim.errorCount).toNat = claim.errorCount.toNat + 1 := by
      rw [toNat_countFailure]
      omega
    have hlt : claim.errorCount < countFailure claim.errorCount := by
      rw [UInt32.lt_iff_toNat_lt, hcount]
      omega
    rw [if_pos hlt, hcount]

namespace Bus

variable {b b' : Bus} {limit : UInt32} {uncut uncut' : Prop} {t : BusTask} {id : EntryId}
  {events log : List AttemptEvent}

/-- An entry with an attempt in progress: its claim is stored and nobody else has it. Unless something
was cut off, the task is still at it. -/
structure IsRunning (b : Bus) (uncut : Prop) (id : EntryId) (t : BusTask) (c : Entry) : Prop where
  entry : c.id = id
  stored : c ∈ b.hub.store.stored
  state : c.state = .inProcessing
  waiting : ∀ e ∈ b.waiting, e.id ≠ id
  alone : ∀ (t' : BusTask) a, t'.attempt? b = some a → a.entry.id = id → t' = t
  present : uncut → ∃ a, t.attempt? b = some a ∧ a.entry = c

/-- What a bus looks like where the attempts on an entry are. -/
def IsIn (b : Bus) (limit : UInt32) (uncut : Prop) (id : EntryId) : AttemptPhase → Prop
  | .idle => ∀ (t : BusTask) a, t.attempt? b = some a → a.entry.id ≠ id
  | .running t c => b.IsRunning uncut id t c
  | .done => b.hub.store.failures id < limit.toNat ∧
      ∃ e ∈ b.hub.store.stored, e.id = id ∧ e.state = .processed

/-- The terms of one limit; nothing is said about penalties. -/
def terms (limit : UInt32) : RetryTerms := ⟨limit, true⟩

/-- A bus in normal operation, after what is told of attempts. -/
structure IsKept (limit : UInt32) (uncut : Prop) (b : Bus) (log : List AttemptEvent) : Prop where
  within : b.IsWithin (terms limit)
  normal : b.IsNormal
  unfailing : b.hub.store.failuresLeft = 0
  waiting : ∀ e ∈ b.waiting, e ∈ b.hub.store.stored ∧ e.state = .inProcessing
  distinct : (b.waiting.map Entry.id).Nodup
  attempts : ∀ (t : BusTask) a, t.attempt? b = some a →
    a.entry ∈ b.hub.store.stored ∧ a.entry.state = .inProcessing ∧ a.IsNormal
  told : ∀ id, ∃ p, Course (log.filter (·.isOn id)) (b.hub.store.failures id) p ∧
    b.IsIn limit uncut id p

/-- What happens to a bus does not concern the attempts on an entry. -/
structure LeavesAlone (b : Bus) (uncut : Prop) (id : EntryId) (b' : Bus) (uncut' : Prop) : Prop where
  attempts : ∀ (t : BusTask) a', t.attempt? b' = some a' → a'.entry.id = id →
    ∃ a, t.attempt? b = some a ∧ a.entry.id = id
  stored : ∀ e ∈ b.hub.store.stored, e.id = id → e.state ≠ .available → e ∈ b'.hub.store.stored
  waiting : (∃ c ∈ b.hub.store.stored, c.id = id ∧ c.state = .inProcessing) →
    (∀ e ∈ b.waiting, e.id ≠ id) → ∀ e ∈ b'.waiting, e.id ≠ id
  failures : b'.hub.store.failures id = b.hub.store.failures id
  present : uncut' → uncut ∧ ∀ (t : BusTask) a, t.attempt? b = some a → a.entry.id = id →
    ∃ a', t.attempt? b' = some a' ∧ a'.entry = a.entry

theorem LeavesAlone.isIn (h : b.LeavesAlone uncut id b' uncut') {p : AttemptPhase}
    (hin : b.IsIn limit uncut id p) : b'.IsIn limit uncut' id p := by
  cases p with
  | idle =>
    intro t a' ha' hid
    obtain ⟨a, ha, hid'⟩ := h.attempts t a' ha' hid
    exact hin t a ha hid'
  | running t c =>
    refine ⟨hin.entry, ?_, hin.state, ?_, fun t' a' ha' hid => ?_, fun huncut => ?_⟩
    · exact h.stored c hin.stored hin.entry (by simp [hin.state])
    · exact h.waiting ⟨c, hin.stored, hin.entry, hin.state⟩ hin.waiting
    · obtain ⟨a, ha, hid'⟩ := h.attempts t' a' ha' hid
      exact hin.alone t' a ha hid'
    · obtain ⟨hbefore, hpresent⟩ := h.present huncut
      obtain ⟨a, ha, rfl⟩ := hin.present hbefore
      exact hpresent t a ha hin.entry
  | done =>
    obtain ⟨hlt, e, he, hid, hstate⟩ := hin
    exact ⟨h.failures ▸ hlt, e, h.stored e he hid (by simp [hstate]), hid, hstate⟩

namespace IsKept

theorem wellFormed (h : b.IsKept limit uncut log) : b.hub.store.IsWellFormed := h.within.store.wellFormed

/-- Stored claims of one entry are the same. -/
theorem eq_of_id_eq (h : b.IsKept limit uncut log) {e f : Entry} (he : e ∈ b.hub.store.stored)
    (hf : f ∈ b.hub.store.stored) (hid : e.id = f.id) : e = f :=
  h.wellFormed.eq_of_id_eq he hf hid

/-- An entry with a claim that is stored is not done. -/
theorem not_done (h : b.IsKept limit uncut log) {e : Entry} (he : e ∈ b.hub.store.stored)
    (hstate : e.state = .inProcessing) (hin : b.IsIn limit uncut e.id .done) : False := by
  obtain ⟨-, f, hf, hid, hdone⟩ := hin
  rw [h.eq_of_id_eq hf he hid, hstate] at hdone
  cases hdone

/-- Of a waiting claim the entry has no attempt in progress. -/
theorem idle_of_waiting (h : b.IsKept limit uncut log) {e : Entry} (he : e ∈ b.waiting) {p : AttemptPhase}
    (hin : b.IsIn limit uncut e.id p) : p = .idle := by
  obtain ⟨hstored, hstate⟩ := h.waiting e he
  cases p with
  | idle => rfl
  | running t c => exact absurd (Eq.refl e.id) (hin.waiting e he)
  | done => exact (h.not_done hstored hstate hin).elim

/-- An attempt that a task makes is the one that was told of. -/
theorem running_of_attempt (h : b.IsKept limit uncut log) {a : Attempt} (ha : t.attempt? b = some a)
    {p : AttemptPhase} (hin : b.IsIn limit uncut a.entry.id p) : p = .running t a.entry := by
  obtain ⟨hstored, hstate, -⟩ := h.attempts t a ha
  cases p with
  | idle => exact absurd rfl (hin t a ha)
  | running t' c =>
    rw [hin.alone t a ha rfl, h.eq_of_id_eq hin.stored hstored hin.entry]
  | done => exact (h.not_done hstored hstate hin).elim

theorem isRunning (h : b.IsKept limit uncut log) {a : Attempt} (ha : t.attempt? b = some a) :
    b.IsRunning uncut a.entry.id t a.entry := by
  obtain ⟨p, -, hin⟩ := h.told a.entry.id
  obtain rfl := h.running_of_attempt ha hin
  exact hin

end IsKept

theorem eq_of_others (h : b.Turns t events b') {t' : BusTask} {a : Attempt} (ht : t' ≠ t)
    (ha : t'.attempt? b' = some a) : t'.attempt? b = some a := by
  rcases h.others t' ht with heq | ⟨-, hnone⟩
  · exact heq ▸ ha
  · rw [hnone] at ha
    cases ha

/-- A turn leaves an entry alone if the attempt of the task is not begun or stored for it. -/
theorem Turns.leavesAlone (h : b.Turns t events b')
    (hcut : uncut' → uncut ∧ ¬ t.CutsOff b b')
    (hnew : ∀ a', t.attempt? b' = some a' → a'.entry.id = id →
      ∃ a, t.attempt? b = some a ∧ a.entry.id = id)
    (hold : ∀ a, t.attempt? b = some a → a.entry.id = id →
      (∃ a', t.attempt? b' = some a' ∧ a'.entry = a.entry) ∨ t.CutsOff b b')
    (hstored : ∀ e ∈ b.hub.store.stored, e.id = id → e.state ≠ .available → e ∈ b'.hub.store.stored)
    (hwaiting : (∃ c ∈ b.hub.store.stored, c.id = id ∧ c.state = .inProcessing) →
      (∀ e ∈ b.waiting, e.id ≠ id) → ∀ e ∈ b'.waiting, e.id ≠ id)
    (hfailures : b'.hub.store.failures id = b.hub.store.failures id) :
    b.LeavesAlone uncut id b' uncut' := by
  refine ⟨fun t' a' ha' hid => ?_, hstored, hwaiting, hfailures, fun huncut => ?_⟩
  · by_cases ht : t' = t
    · subst ht
      exact hnew a' ha' hid
    · exact ⟨a', eq_of_others h ht ha', hid⟩
  · obtain ⟨hbefore, hnot⟩ := hcut huncut
    refine ⟨hbefore, fun t' a ha hid => ?_⟩
    by_cases ht : t' = t
    · subst ht
      exact (hold a ha hid).resolve_right hnot
    · rcases h.others t' ht with heq | ⟨haborts, -⟩
      · exact ⟨a, heq.trans ha, rfl⟩
      · exact absurd (.inl haborts) hnot

theorem filter_concat_of_ne {x : AttemptEvent} (hid : x.claim.id ≠ id) :
    (log ++ [x]).filter (·.isOn id) = log.filter (·.isOn id) := by
  simp [List.filter_append, AttemptEvent.isOn, hid]

theorem filter_concat_of_eq {x : AttemptEvent} (hid : x.claim.id = id) :
    (log ++ [x]).filter (·.isOn id) = log.filter (·.isOn id) ++ [x] := by
  simp [List.filter_append, AttemptEvent.isOn, hid]

theorem nodup_ids_of_subperm {w w' : List Entry} (h : w'.Subperm w) (hw : (w.map Entry.id).Nodup) :
    (w'.map Entry.id).Nodup := by
  obtain ⟨l, hperm, hsub⟩ := h
  exact (hperm.map Entry.id).nodup_iff.mp (hw.sublist (hsub.map Entry.id))

/-- A turn without events keeps what was told, if the attempt of the task at most goes on. -/
theorem IsKept.of_quiet (h : b.IsKept limit uncut log) (hwithin : b'.IsWithin (terms limit))
    (hturns : b.Turns t [] b') (hcut : uncut' → uncut ∧ ¬ t.CutsOff b b')
    (hgoes : b.hub.store.GoesOn b'.hub.store)
    (hnew : ∀ a', t.attempt? b' = some a' →
      a'.IsNormal ∧ ∃ a, t.attempt? b = some a ∧ a.entry = a'.entry)
    (hold : ∀ a, t.attempt? b = some a →
      (∃ a', t.attempt? b' = some a' ∧ a'.entry = a.entry) ∨ t.CutsOff b b')
    (hwaiting : ∀ e ∈ b'.waiting, e ∈ b.waiting ∨ (e ∈ b'.hub.store.stored ∧ e.state = .inProcessing ∧
      ∃ d ∈ b.hub.store.stored, d.id = e.id ∧ d.state = .available))
    (hdistinct : (b'.waiting.map Entry.id).Nodup) : b'.IsKept limit uncut' log where
  within := hwithin
  normal := hturns.normal
  unfailing := hgoes.unfailing h.unfailing
  waiting e he := by
    rcases hwaiting e he with hmem | ⟨hstored, hstate, -⟩
    · obtain ⟨hstored, hstate⟩ := h.waiting e hmem
      exact ⟨hgoes.keeps_claim hstored hstate, hstate⟩
    · exact ⟨hstored, hstate⟩
  distinct := hdistinct
  attempts t' a' ha' := by
    have hbefore : ∃ a, t'.attempt? b = some a ∧ a.entry = a'.entry ∧ a'.IsNormal := by
      by_cases ht : t' = t
      · subst ht
        obtain ⟨hnormal, a, ha, hentry⟩ := hnew a' ha'
        exact ⟨a, ha, hentry, hnormal⟩
      · have ha := eq_of_others hturns ht ha'
        exact ⟨a', ha, rfl, (h.attempts t' a' ha).2.2⟩
    obtain ⟨a, ha, hentry, hnormal⟩ := hbefore
    obtain ⟨hstored, hstate, -⟩ := h.attempts t' a ha
    rw [← hentry]
    exact ⟨hgoes.keeps_claim hstored hstate, hstate, hnormal⟩
  told id := by
    obtain ⟨p, hcourse, hin⟩ := h.told id
    refine ⟨p, (hgoes.failures id).symm ▸ hcourse, LeavesAlone.isIn ?_ hin⟩
    refine hturns.leavesAlone hcut (fun a' ha' hid => ?_) (fun a ha _ => hold a ha)
      (fun e he _ hstate => hgoes.keeps e he hstate) ?_ (hgoes.failures id)
    · obtain ⟨-, a, ha, hentry⟩ := hnew a' ha'
      exact ⟨a, ha, hentry ▸ hid⟩
    · rintro ⟨c, hc, hcid, hcstate⟩ hnone e he
      rcases hwaiting e he with hmem | ⟨-, -, d, hd, hdid, hdstate⟩
      · exact hnone e hmem
      · intro hid
        rw [h.eq_of_id_eq hc hd (hcid.trans (hid.symm.trans hdid.symm)), hdstate] at hcstate
        cases hcstate

/-- An attempt begins with a claim that waited. -/
theorem IsKept.of_begun (h : b.IsKept limit uncut log) (hwithin : b'.IsWithin (terms limit))
    {a : Attempt} (hturns : b.Turns t [.begun t a.entry] b')
    (hcut : uncut' → uncut ∧ ¬ t.CutsOff b b') (hstore : b'.hub.store = b.hub.store)
    (hnone : t.attempt? b = none) (hsome : t.attempt? b' = some a) (hnormal : a.IsNormal)
    (hkept : (a.entry :: b'.waiting).Subperm b.waiting) :
    b'.IsKept limit uncut' (log ++ [.begun t a.entry]) := by
  have hmem : a.entry ∈ b.waiting := hkept.subset (List.mem_cons_self ..)
  have hrest : ∀ e ∈ b'.waiting, e ∈ b.waiting := fun e he => hkept.subset (List.mem_cons_of_mem _ he)
  obtain ⟨hstored, hstate⟩ := h.waiting a.entry hmem
  obtain ⟨hfresh, hdistinct⟩ := List.nodup_cons.mp (nodup_ids_of_subperm hkept h.distinct)
  have hother : ∀ e ∈ b'.waiting, e.id ≠ a.entry.id := fun e he hid =>
    hfresh (List.mem_map.mpr ⟨e, he, hid⟩)
  refine ⟨hwithin, hturns.normal, hstore ▸ h.unfailing, ?_, hdistinct, ?_, fun id => ?_⟩
  · rw [hstore]
    exact fun e he => h.waiting e (hrest e he)
  · intro t' a' ha'
    rw [hstore]
    by_cases ht : t' = t
    · subst ht
      obtain rfl := Option.some.inj (hsome.symm.trans ha')
      exact ⟨hstored, hstate, hnormal⟩
    · exact h.attempts t' a' (eq_of_others hturns ht ha')
  · obtain ⟨p, hcourse, hin⟩ := h.told id
    rw [hstore]
    by_cases hid : a.entry.id = id
    · subst hid
      obtain rfl := h.idle_of_waiting hmem hin
      have hlog : (log ++ [AttemptEvent.begun t a.entry]).filter (·.isOn a.entry.id) =
          log.filter (·.isOn a.entry.id) ++ [.begun t a.entry] := filter_concat_of_eq rfl
      rw [hlog]
      refine ⟨_, hcourse.begun t a.entry, rfl, hstore ▸ hstored, hstate, hother, ?_, fun _ => ⟨a, hsome, rfl⟩⟩
      intro t' a' ha' hid
      refine Classical.byContradiction fun ht => ?_
      exact hin t' a' (eq_of_others hturns ht ha') hid
    · have hlog : (log ++ [AttemptEvent.begun t a.entry]).filter (·.isOn id) = log.filter (·.isOn id) :=
        filter_concat_of_ne hid
      rw [hlog]
      refine ⟨p, hcourse, LeavesAlone.isIn ?_ hin⟩
      refine hturns.leavesAlone hcut (fun a' ha' hid' => ?_) (fun a' ha' => ?_)
        (fun e he _ _ => hstore ▸ he) (fun _ hall e he => hall e (hrest e he)) (by rw [hstore])
      · obtain rfl := Option.some.inj (hsome.symm.trans ha')
        exact absurd hid' hid
      · rw [hnone] at ha'
        cases ha'

/-- The course of an entry whose attempt stores its record. -/
theorem IsKept.course_of_stored (h : b.IsKept limit uncut log) (hwithin : b'.IsWithin (terms limit))
    {e next : Entry} {outcome : DispatchOutcome} {now : Timestamp}
    (hsome : t.attempt? b = some (.storing e next outcome))
    (hresolves : b.hub.store.Resolves e next now b'.hub.store)
    (hnone : ∀ (t' : BusTask) a, t'.attempt? b' = some a → a.entry.id ≠ e.id) :
    ∃ p, Course (log.filter (·.isOn e.id) ++ [.stored t e next (.ok ())]) (b'.hub.store.failures e.id) p ∧
      b'.IsIn limit uncut' e.id p := by
  obtain ⟨hstored, hstate, hanswers⟩ := h.attempts t _ hsome
  have hstored : e ∈ b.hub.store.stored := hstored
  obtain ⟨p, hcourse, hin⟩ := h.told e.id
  obtain rfl : p = .running t e := h.running_of_attempt hsome hin
  have hspare : e.errorCount.toNat < limit.toNat :=
    UInt32.lt_iff_toNat_lt.mp ((h.within.store.within e hstored).spare (.inr hstate))
  have hbefore := Store.failures_eq h.wellFormed hstored
  have hafter := hresolves.failures_claim hwithin.store.wellFormed hanswers hspare limit.toNat_lt
  by_cases hprocessed : next.state = .processed
  · rw [if_pos hprocessed, ← hbefore] at hafter
    rw [hafter]
    refine ⟨.done, hcourse.succeeded hprocessed, ?_, _, hresolves.resolved, rfl, hprocessed⟩
    rw [hafter, hbefore]
    exact hspare
  · rw [if_neg hprocessed, ← hbefore] at hafter
    rw [hafter]
    exact ⟨.idle, hcourse.failed hprocessed, hnone⟩

/-- An attempt stores its record. -/
theorem IsKept.of_stored (h : b.IsKept limit uncut log) (hwithin : b'.IsWithin (terms limit))
    {e next : Entry} {outcome : DispatchOutcome} {now : Timestamp}
    (hturns : b.Turns t [.stored t e next (b.hub.store.update e next now).1] b')
    (hcut : uncut' → uncut ∧ ¬ t.CutsOff b b')
    (hstore : b'.hub.store = (b.hub.store.update e next now).2)
    (hsome : t.attempt? b = some (.storing e next outcome)) (hnone : t.attempt? b' = none)
    (hkept : b'.waiting.Subperm b.waiting) :
    b'.IsKept limit uncut' (log ++ [.stored t e next (b.hub.store.update e next now).1]) := by
  obtain ⟨hstored, hstate, hanswers⟩ := h.attempts t _ hsome
  have hstored : e ∈ b.hub.store.stored := hstored
  obtain ⟨hok, hresolves⟩ :=
    Store.resolves_of_held h.wellFormed h.unfailing hstored hstate hanswers.move now
  rw [← hstore] at hresolves
  rw [hok]
  -- the entry of the attempt has no other attempt, and no claim that waits
  have halone : b.IsRunning uncut e.id t e := h.isRunning hsome
  have hrest : ∀ f ∈ b'.waiting, f ∈ b.waiting := fun f hf => hkept.subset hf
  have hothers : ∀ (t' : BusTask) a, t'.attempt? b' = some a →
      t'.attempt? b = some a ∧ a.entry.id ≠ e.id := by
    intro t' a ha
    have ht : t' ≠ t := by
      rintro rfl
      rw [hnone] at ha
      cases ha
    have hbefore := eq_of_others hturns ht ha
    exact ⟨hbefore, fun hid => ht (halone.alone t' a hbefore hid)⟩
  refine ⟨hwithin, hturns.normal, hresolves.unfailing, fun f hf => ?_, ?_, fun t' a ha => ?_, fun id => ?_⟩
  · obtain ⟨hmem, hfstate⟩ := h.waiting f (hrest f hf)
    exact ⟨hresolves.keeps f hmem (halone.waiting f (hrest f hf)), hfstate⟩
  · exact nodup_ids_of_subperm hkept h.distinct
  · obtain ⟨hbefore, hid⟩ := hothers t' a ha
    obtain ⟨hmem, hastate, hanormal⟩ := h.attempts t' a hbefore
    exact ⟨hresolves.keeps _ hmem hid, hastate, hanormal⟩
  · by_cases hid : e.id = id
    · subst hid
      have hlog : (log ++ [AttemptEvent.stored t e next (.ok ())]).filter (·.isOn e.id) =
          log.filter (·.isOn e.id) ++ [.stored t e next (.ok ())] := filter_concat_of_eq rfl
      rw [hlog]
      exact h.course_of_stored hwithin hsome hresolves fun t' a ha => (hothers t' a ha).2
    · obtain ⟨p, hcourse, hin⟩ := h.told id
      have hlog : (log ++ [AttemptEvent.stored t e next (.ok ())]).filter (·.isOn id) =
          log.filter (·.isOn id) := filter_concat_of_ne hid
      rw [hlog]
      refine ⟨p, hresolves.failures id (Ne.symm hid) ▸ hcourse, LeavesAlone.isIn ?_ hin⟩
      refine hturns.leavesAlone hcut (fun a ha => ?_) (fun a ha haid => ?_)
        (fun f hf hfid _ => hresolves.keeps f hf (hfid ▸ Ne.symm hid))
        (fun _ hall f hf => hall f (hrest f hf)) (hresolves.failures id (Ne.symm hid))
      · rw [hnone] at ha
        cases ha
      · obtain rfl := Option.some.inj (hsome.symm.trans ha)
        exact absurd haid hid

/-- What is handed out was available, and what waits was claimed. -/
theorem IsKept.distinct_of_handsOut (h : b.IsKept limit uncut log) {es : List Entry} {s' : Store}
    (handsOut : b.hub.store.HandsOut es s') : ((es ++ b.waiting).map Entry.id).Nodup := by
  rw [List.map_append]
  refine List.nodup_append.mpr ⟨handsOut.distinct, h.distinct, ?_⟩
  rintro _ hnew _ hold rfl
  obtain ⟨e, he, hid⟩ := List.mem_map.mp hnew
  obtain ⟨f, hf, hfid⟩ := List.mem_map.mp hold
  obtain ⟨d, hd, hdid, hdstate⟩ := handsOut.unclaimed e he
  obtain ⟨hstored, hstate⟩ := h.waiting f hf
  rw [h.eq_of_id_eq hstored hd (hfid.trans (hid.symm.trans hdid.symm)), hdstate] at hstate
  cases hstate

/-- Every turn keeps what was told. -/
theorem IsKept.of_turns (h : b.IsKept limit uncut log) (hwithin : b'.IsWithin (terms limit))
    (hturns : b.Turns t events b') (hcut : uncut' → uncut ∧ ¬ t.CutsOff b b') :
    b'.IsKept limit uncut' (log ++ events) := by
  have hturn := hturns.turn
  unfold share at hturn
  generalize hw : b.waiting = w, hw' : b'.waiting = w', ho : t.attempt? b = o,
    ho' : t.attempt? b' = o', hs : b.hub.store = s, hs' : b'.hub.store = s' at hturn
  cases hturn with
  | quiet kept attempt goesOn =>
    rw [List.append_nil]
    subst hw hw' hs hs'
    refine h.of_quiet hwithin hturns hcut goesOn (fun a' ha' => ?_) (fun a ha => ?_)
      (fun e he => .inl (kept.subset he)) (nodup_ids_of_subperm kept h.distinct)
    · rcases attempt with heq | ⟨hnone, -⟩
      · have ha : t.attempt? b = some a' := by rw [ho, ← heq, ← ho', ha']
        exact ⟨(h.attempts t a' ha).2.2, a', ha, rfl⟩
      · rw [ho', hnone] at ha'
        cases ha'
    · rcases attempt with heq | ⟨hnone, e, outcome, hjudged⟩
      · exact .inl ⟨a, by rw [ho', heq, ← ho, ha], rfl⟩
      · exact .inr (.inr ⟨⟨e, outcome, ho.trans hjudged⟩, ho'.trans hnone⟩)
  | @claimed _ _ es _ _ _ kept handsOut =>
    rw [List.append_nil]
    subst hw hw' hs hs'
    refine h.of_quiet hwithin hturns hcut handsOut.goesOn (fun a' ha' => ?_) (fun a ha => ?_)
      (fun e he => ?_) (nodup_ids_of_subperm kept (h.distinct_of_handsOut handsOut))
    · have ha : t.attempt? b = some a' := by rw [ho, ← ho', ha']
      exact ⟨(h.attempts t a' ha).2.2, a', ha, rfl⟩
    · exact .inl ⟨a, by rw [ho', ← ho, ha], rfl⟩
    · rcases List.mem_append.mp (kept.subset he) with hnew | hold
      · obtain ⟨hstored, hstate⟩ := handsOut.stored e hnew
        exact .inr ⟨hstored, hstate, handsOut.unclaimed e hnew⟩
      · exact .inl hold
  | begun kept normal =>
    subst hw hw' hs'
    exact h.of_begun hwithin hturns hcut hs.symm ho ho' normal kept
  | @went _ _ a a' _ _ kept entry normal goesOn =>
    rw [List.append_nil]
    subst hw hw' hs hs'
    refine h.of_quiet hwithin hturns hcut goesOn (fun a₁ ha₁ => ?_) (fun a₁ ha₁ => ?_)
      (fun e he => .inl (kept.subset he)) (nodup_ids_of_subperm kept h.distinct)
    · obtain rfl := Option.some.inj (ho'.symm.trans ha₁)
      exact ⟨normal, a, ho, entry.symm⟩
    · obtain rfl := Option.some.inj (ho.symm.trans ha₁)
      exact .inl ⟨a', ho', entry⟩
  | stored kept now =>
    subst hw hw' hs
    exact h.of_stored hwithin hturns hcut hs' ho ho' kept

end Bus

end DurableQueue
