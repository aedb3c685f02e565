import DurableQueue.Proofs.Store.Lifecycle

/-!
Claims over whole runs.

`Store.events` pairs the operations of a run with their answers. For one entry the answers alone
tell when it was claimed (`ClaimedAt`) and when a claim of it ended (`TakenOutAt`), and
`claims_alternate` says that the two alternate: an entry is claimed again only after it was handed
back, and never after it was retired. The invariant behind it is the phase of the entry, which the
answers move along the lifecycle.
-/

namespace DurableQueue

/-- Only an entry that waits can come into processing. -/
theorem EntryState.eq_available_of_canMoveTo_inProcessing {t : EntryState}
    (h : t.canMoveTo .inProcessing = true) : t = .available := by
  cases t <;> first | rfl | cases h

theorem EntryState.eq_available_or_isTerminal {t : EntryState} (h : t ≠ .inProcessing) :
    t = .available ∨ t.isTerminal = true := by
  cases t <;> first | exact .inl rfl | exact .inr rfl | exact absurd rfl h

namespace Entry.Fate

variable {now : Timestamp} {op : StoreOp} {a : Except StoreError StoreAnswer} {e e' : Entry}

/-- The answer names an entry as claimed exactly if its state went from available to claimed. -/
theorem claims_iff (h : Fate now op a e e') :
    e.id ∈ op.claims a ↔ e.state = .available ∧ e'.state = .inProcessing := by
  cases h with
  | kept unclaimed untaken =>
    refine iff_of_false unclaimed ?_
    rintro ⟨h1, h2⟩
    rw [h1] at h2
    cases h2
  | claimed hop ha wanted listed =>
    have hs := (isClaimableAt_iff.mp (Store.isWanted_iff.mp wanted).1).1
    subst hop ha
    exact iff_of_true (List.mem_map.mpr ⟨_, listed, rfl⟩) ⟨hs, rfl⟩
  | resolved hop ha hid same move =>
    subst hop ha
    refine iff_of_false (by simp [StoreOp.claims]) ?_
    rw [(Store.isSameClaim_iff.mp same).1]
    simp
  | reaped hop ha hc stale listed only =>
    subst hop ha
    refine iff_of_false (by simp [StoreOp.claims]) ?_
    rw [(isStaleClaim_iff.mp stale).1]
    simp
  | released hop ha held listed only =>
    subst hop ha
    refine iff_of_false (by simp [StoreOp.claims]) ?_
    rw [(isHeldBy_iff.mp held).1]
    simp

/-- An answer that lists one changed record of an entry tells where that record went. -/
theorem mem_takeOuts_iff_of_only {es : List Entry} {f : Entry} {t : EntryState} (hf : f ∈ es)
    (hid : f.id = e.id) (only : ∀ g ∈ es, g.id = e.id → g = f) :
    (e.id, t) ∈ es.map (fun g => (g.id, g.state)) ↔ f.state = t := by
  rw [List.mem_map]
  constructor
  · rintro ⟨g, hg, hgt⟩
    obtain ⟨hgid, hgs⟩ := Prod.mk.inj hgt
    exact only g hg hgid ▸ hgs
  · rintro rfl
    exact ⟨f, hf, by rw [hid]⟩

/-- The answer names an entry as taken out exactly if its state went from claimed to the named
one. -/
theorem takeOuts_iff (h : Fate now op a e e') (t : EntryState) :
    (e.id, t) ∈ op.takeOuts a ↔ e.state = .inProcessing ∧ e'.state = t ∧ t ≠ .inProcessing := by
  cases h with
  | kept unclaimed untaken =>
    refine iff_of_false (untaken t) ?_
    rintro ⟨h1, h2, h3⟩
    exact h3 (h2.symm.trans h1)
  | claimed hop ha wanted listed =>
    have hs := (isClaimableAt_iff.mp (Store.isWanted_iff.mp wanted).1).1
    subst hop ha
    refine iff_of_false (by simp [StoreOp.takeOuts]) ?_
    rw [hs]
    simp
  | @resolved claim next hop ha hid same move =>
    subst hop ha
    have hs := (Store.isSameClaim_iff.mp same).1
    have hne : next.state ≠ .inProcessing := by
      rw [hs] at move
      intro hn
      rw [hn] at move
      cases move
    simp only [StoreOp.takeOuts, List.mem_singleton, hid, Prod.mk.injEq, true_and, Store.resolved, hs]
    exact ⟨fun h => ⟨h.symm, h ▸ hne⟩, fun h => h.1.symm⟩
  | @reaped policy cutoff es hop ha hc stale listed only =>
    subst hop ha
    have hne : (e.reaped policy now).state ≠ .inProcessing := by
      rcases policy.stateAfter_eq e.errorCount with h | h <;> simp [Entry.reaped, h]
    rw [show StoreOp.takeOuts (.reap policy) (.ok (.entries es)) =
      es.map (fun g => (g.id, g.state)) from rfl, mem_takeOuts_iff_of_only (e := e) listed rfl only]
    exact ⟨fun h => ⟨(isStaleClaim_iff.mp stale).1, h, h ▸ hne⟩, fun h => h.2.1⟩
  | @released owner es hop ha held listed only =>
    subst hop ha
    have hne : (e.released now).state ≠ .inProcessing := by simp [Entry.released]
    rw [show StoreOp.takeOuts (.release owner) (.ok (.entries es)) =
      es.map (fun g => (g.id, g.state)) from rfl, mem_takeOuts_iff_of_only (e := e) listed rfl only]
    exact ⟨fun h => ⟨(isHeldBy_iff.mp held).1, h, h ▸ hne⟩, fun h => h.2.1⟩

end Entry.Fate

namespace Store

/-- The operations of a run, each with its answer. -/
def events (s : Store) (ops : List (StoreOp × Timestamp)) :
    List (StoreOp × Except StoreError StoreAnswer) :=
  (ops.map Prod.fst).zip (s.run ops).1

/-- The event of this place is a claim whose answer contains the entry. -/
def ClaimedAt (events : List (StoreOp × Except StoreError StoreAnswer)) (id : EntryId) (i : Nat) :
    Prop :=
  ∃ op a, events[i]? = some (op, a) ∧ id ∈ op.claims a

/-- The event of this place took the entry out of processing: an update that succeeded, or a reap or
a release whose answer contains the entry. -/
def TakenOutAt (events : List (StoreOp × Except StoreError StoreAnswer)) (id : EntryId)
    (t : EntryState) (i : Nat) : Prop :=
  ∃ op a, events[i]? = some (op, a) ∧ (id, t) ∈ op.takeOuts a

/-- Where an entry is in its lifecycle; none if there is no such entry yet. -/
def phase (s : Store) (id : EntryId) : Option EntryState := (s.lookup? id).map Entry.state

/-- The phase of an entry before the operation of a place of a run. -/
def phaseAt (s : Store) (ops : List (StoreOp × Timestamp)) (id : EntryId) (i : Nat) :
    Option EntryState :=
  (s.run (ops.take i)).2.phase id

variable {s s' : Store} {op : StoreOp} {now : Timestamp} {a : Except StoreError StoreAnswer}

/-- How the phase of an entry moves in one operation, and what the answer says about it. -/
structure PhaseStep (op : StoreOp) (a : Except StoreError StoreAnswer) (id : EntryId)
    (before after : Option EntryState) : Prop where
  claims : id ∈ op.claims a ↔ before = some .available ∧ after = some .inProcessing
  takeOuts : ∀ t, (id, t) ∈ op.takeOuts a ↔
    before = some .inProcessing ∧ after = some t ∧ t ≠ .inProcessing
  move : before = after ∨ (before = none ∧ after = some .available) ∨
    ∃ t t', before = some t ∧ after = some t' ∧ t.canMoveTo t' = true

theorem phase_eq_some_iff (h : s.IsWellFormed) {id : EntryId} {t : EntryState} :
    s.phase id = some t ↔ ∃ e ∈ s.stored, e.id = id ∧ e.state = t := by
  simp only [phase, Option.map_eq_some_iff, h.lookup?_eq_some_iff, and_assoc]

theorem phase_eq_none_iff (h : s.IsWellFormed) {id : EntryId} :
    s.phase id = none ↔ ∀ e ∈ s.stored, e.id ≠ id := by
  rw [phase, Option.map_eq_none_iff, Option.eq_none_iff_forall_ne_some]
  constructor
  · intro hn e he hid
    exact hn e (h.lookup?_eq_some_iff.mpr ⟨he, hid⟩)
  · intro hn e he
    obtain ⟨hmem, hid⟩ := h.lookup?_eq_some_iff.mp he
    exact hn e hmem hid

/-- Answers that list changed live entries name stored ones. -/
theorem exists_stored_of_mem_ids {es : List Entry} {g : Entry → Entry}
    (hc : ∀ e, (g e).id = e.id) (hes : ∀ f ∈ es, ∃ e ∈ s.live, f = g e) {id : EntryId}
    (hid : id ∈ es.map Entry.id) : ∃ e ∈ s.stored, e.id = id := by
  obtain ⟨f, hf, rfl⟩ := List.mem_map.mp hid
  obtain ⟨e, hmem, rfl⟩ := hes f hf
  exact ⟨e, List.mem_append_left _ hmem, (hc e).symm⟩

theorem exists_stored_of_changed {p : Entry → Bool} {g : Entry → Entry}
    (hc : ∀ e, (g e).id = e.id) {id : EntryId} {t : EntryState}
    (ht : (id, t) ∈ (s.changeWhere p g).1.map fun e => (e.id, e.state)) :
    ∃ e ∈ s.stored, e.id = id := by
  obtain ⟨f, hf, hft⟩ := List.mem_map.mp ht
  refine exists_stored_of_mem_ids hc (fun f hf => ?_)
    (List.mem_map.mpr ⟨f, hf, (Prod.mk.inj hft).1⟩)
  obtain ⟨e, hmem, -, rfl⟩ := mem_changeWhere_iff.mp hf
  exact ⟨e, hmem, rfl⟩

theorem exists_stored_of_mem_claims (he : Effect now s op a s') {id : EntryId}
    (hn : id ∈ op.claims a) : ∃ e ∈ s.stored, e.id = id := by
  cases he with
  | failed e left => simp at hn
  | read hr b left => simp [StoreOp.claims_of_isReading hr] at hn
  | claimed count claimer owner =>
    refine exists_stored_of_mem_ids (g := (·.claimedBy claimer now)) (fun _ => rfl)
      (fun f hf => ?_) hn
    rw [claimFirst_fst] at hf
    obtain ⟨e, hmem, rfl⟩ := List.mem_map.mp hf
    exact ⟨e, List.mem_of_mem_filter (List.mem_of_mem_take hmem), rfl⟩
  | _ => simp [StoreOp.claims] at hn

theorem exists_stored_of_mem_takeOuts (he : Effect now s op a s') {id : EntryId} {t : EntryState}
    (hn : (id, t) ∈ op.takeOuts a) : ∃ e ∈ s.stored, e.id = id := by
  cases he with
  | failed e left => simp at hn
  | read hr b left => simp [StoreOp.takeOuts_of_isReading hr] at hn
  | resolved found same move =>
    simp only [StoreOp.takeOuts, List.mem_singleton, Prod.mk.injEq] at hn
    exact ⟨_, List.mem_append_left _ (List.mem_of_find?_eq_some found),
      by simpa [hn.1] using List.find?_some found⟩
  | reaped hc => exact exists_stored_of_changed (g := (·.reaped _ now)) (fun _ => rfl) hn
  | released owner => exact exists_stored_of_changed (g := (·.released now)) (fun _ => rfl) hn
  | _ => simp [StoreOp.takeOuts] at hn

/-- Every operation moves the phase of every entry along the lifecycle, and its answer tells. -/
theorem phaseStep_of_effect (h : s.IsWellFormed) (he : Effect now s op a s') (id : EntryId) :
    PhaseStep op a id (s.phase id) (s'.phase id) := by
  have h' := isWellFormed_of_effect h he
  cases hp : s.phase id with
  | some t =>
    obtain ⟨e, hmem, rfl, rfl⟩ := (phase_eq_some_iff h).mp hp
    obtain ⟨e', hmem', hfate⟩ := exists_fate h he hmem
    have hp' : s'.phase e.id = some e'.state :=
      (phase_eq_some_iff h').mpr ⟨e', hmem', hfate.evolves.id, rfl⟩
    rw [hp']
    refine ⟨by simpa using hfate.claims_iff, fun t => by simpa using hfate.takeOuts_iff t, ?_⟩
    rcases hfate.evolves.move with hm | hm
    · exact .inl (by rw [hm])
    · exact .inr (.inr ⟨_, _, rfl, rfl, hm⟩)
  | none =>
    have habsent := (phase_eq_none_iff h).mp hp
    have hout : ¬ ∃ e ∈ s.stored, e.id = id := fun ⟨e, hmem, hid⟩ => habsent e hmem hid
    refine ⟨iff_of_false (fun hc => hout (exists_stored_of_mem_claims he hc)) (by simp),
      fun t => iff_of_false (fun ht => hout (exists_stored_of_mem_takeOuts he ht)) (by simp), ?_⟩
    rcases stored_of_effect h he with ⟨f, hs, hf⟩ | ⟨new, rfl, rfl, hs⟩
    · refine .inl ((phase_eq_none_iff h').mpr fun e' hmem' hid => ?_).symm
      obtain ⟨e, hmem, rfl⟩ := List.mem_map.mp (hs.mem_iff.mp hmem')
      exact habsent e hmem ((hf e hmem).evolves.id.symm.trans hid)
    · by_cases hid : id = ⟨s.lastId + 1⟩
      · refine .inr (.inl ⟨rfl, (phase_eq_some_iff h').mpr ?_⟩)
        exact ⟨_, hs.mem_iff.mpr List.mem_cons_self, hid.symm, rfl⟩
      · refine .inl ((phase_eq_none_iff h').mpr fun e' hmem' hid' => ?_).symm
        rcases List.mem_cons.mp (hs.mem_iff.mp hmem') with rfl | hmem
        · exact hid hid'.symm
        · exact habsent e' hmem hid'

/-- No answer of a claim contains an entry twice. -/
theorem nodup_claims (h : s.IsWellFormed) (he : Effect now s op a s') : (op.claims a).Nodup := by
  cases he with
  | failed e left => simp
  | read hr b left => simp [StoreOp.claims_of_isReading hr]
  | claimed count claimer owner =>
    have hsub : (((s.live.filter (isWanted owner now)).take count).map Entry.id).Sublist
        (s.stored.map Entry.id) :=
      (((List.take_sublist _ _).trans List.filter_sublist).trans
        (List.sublist_append_left _ _)).map Entry.id
    simp only [StoreOp.claims, claimFirst_fst, List.map_map]
    exact hsub.nodup h.distinct
  | _ => simp [StoreOp.claims]

theorem run_take_succ (s : Store) {ops : List (StoreOp × Timestamp)} {i : Nat}
    (hi : ops[i]? = some (op, now)) :
    (s.run (ops.take (i + 1))).2 = ((s.run (ops.take i)).2.apply op now).2 := by
  induction ops generalizing s i with
  | nil => simp at hi
  | cons first rest ih =>
    cases i with
    | zero =>
      have hfirst : first = (op, now) := by simpa using hi
      subst hfirst
      rfl
    | succ i => exact ih (s.apply first.1 first.2).2 (by simpa using hi)

/-- The answer of a place is the answer of its operation in the state reached before it. -/
theorem getElem?_events (s : Store) (ops : List (StoreOp × Timestamp)) (i : Nat) :
    (s.events ops)[i]? =
      (ops[i]?).map fun o => (o.1, ((s.run (ops.take i)).2.apply o.1 o.2).1) := by
  induction ops generalizing s i with
  | nil => simp [events, run]
  | cons first rest ih =>
    cases i with
    | zero => simp [events, run]
    | succ i =>
      have hrest : (s.events (first :: rest))[i + 1]? =
          ((s.apply first.1 first.2).2.events rest)[i]? := by
        simp [events, run]
      rw [hrest, ih]
      rfl

theorem phaseStep_at (h : s.IsWellFormed) {ops : List (StoreOp × Timestamp)} {i : Nat}
    (hi : (s.events ops)[i]? = some (op, a)) (id : EntryId) :
    PhaseStep op a id (s.phaseAt ops id i) (s.phaseAt ops id (i + 1)) := by
  rw [getElem?_events] at hi
  obtain ⟨⟨op', now⟩, ho, heq⟩ := Option.map_eq_some_iff.mp hi
  obtain ⟨rfl, rfl⟩ := Prod.mk.inj heq
  rw [phaseAt, phaseAt, run_take_succ s ho]
  exact phaseStep_of_effect (isWellFormed_run h _) (effect_apply _ _ _) id

/-- A place where the phase changes is the place of an operation. -/
theorem exists_event_of_phase_ne {ops : List (StoreOp × Timestamp)} {id : EntryId} {i : Nat}
    (hne : s.phaseAt ops id i ≠ s.phaseAt ops id (i + 1)) :
    ∃ op a, (s.events ops)[i]? = some (op, a) := by
  by_cases hi : i < ops.length
  · exact ⟨_, _, by rw [getElem?_events, List.getElem?_eq_getElem hi]; rfl⟩
  · refine absurd ?_ hne
    rw [phaseAt, phaseAt, List.take_of_length_le (Nat.le_of_not_lt hi),
      List.take_of_length_le (Nat.le_succ_of_le (Nat.le_of_not_lt hi))]

/-- What holds at one place and no longer at a later one stops holding in a step between. -/
theorem exists_last_before {p : Nat → Prop} {i j : Nat} (hij : i ≤ j) (hi : p i) (hj : ¬ p j) :
    ∃ k, i ≤ k ∧ k < j ∧ p k ∧ ¬ p (k + 1) := by
  induction hij with
  | refl => exact absurd hi hj
  | @step j hij ih =>
    by_cases hp : p j
    · exact ⟨j, hij, Nat.lt_succ_self j, hp, hj⟩
    · obtain ⟨k, hik, hkj, hk⟩ := ih hp
      exact ⟨k, hik, Nat.lt_succ_of_lt hkj, hk⟩

/-- A terminal phase lasts. -/
theorem phaseAt_of_isTerminal (h : s.IsWellFormed) {ops : List (StoreOp × Timestamp)}
    {id : EntryId} {t : EntryState} (ht : t.isTerminal = true) {i j : Nat} (hij : i ≤ j)
    (hi : s.phaseAt ops id i = some t) : s.phaseAt ops id j = some t := by
  by_contra hj
  obtain ⟨k, -, -, hk, hk'⟩ := exists_last_before (p := fun k => s.phaseAt ops id k = some t) hij hi hj
  obtain ⟨op, a, he⟩ := exists_event_of_phase_ne (fun heq => hk' (heq ▸ hk))
  rcases (phaseStep_at h he id).move with hm | ⟨hm, -⟩ | ⟨t', t'', hm, -, hmove⟩
  · exact hk' (hm ▸ hk)
  · rw [hm] at hk
    cases hk
  · rw [hm] at hk
    cases hk
    rw [EntryState.not_canMoveTo_of_isTerminal ht] at hmove
    cases hmove

section

variable {ops : List (StoreOp × Timestamp)} {id : EntryId} {i j : Nat}

theorem claimedAt_iff (h : s.IsWellFormed) :
    ClaimedAt (s.events ops) id i ↔
      s.phaseAt ops id i = some .available ∧ s.phaseAt ops id (i + 1) = some .inProcessing := by
  constructor
  · rintro ⟨op, a, he, hc⟩
    exact (phaseStep_at h he id).claims.mp hc
  · rintro ⟨h1, h2⟩
    have hne : s.phaseAt ops id i ≠ s.phaseAt ops id (i + 1) := by
      rw [h1, h2]
      simp
    obtain ⟨op, a, he⟩ := exists_event_of_phase_ne hne
    exact ⟨op, a, he, (phaseStep_at h he id).claims.mpr ⟨h1, h2⟩⟩

theorem takenOutAt_iff (h : s.IsWellFormed) {t : EntryState} :
    TakenOutAt (s.events ops) id t i ↔ s.phaseAt ops id i = some .inProcessing ∧
      s.phaseAt ops id (i + 1) = some t ∧ t ≠ .inProcessing := by
  constructor
  · rintro ⟨op, a, he, ht⟩
    exact ((phaseStep_at h he id).takeOuts t).mp ht
  · rintro ⟨h1, h2, h3⟩
    have hne : s.phaseAt ops id i ≠ s.phaseAt ops id (i + 1) := by
      rw [h1, h2]
      simpa using h3.symm
    obtain ⟨op, a, he⟩ := exists_event_of_phase_ne hne
    exact ⟨op, a, he, ((phaseStep_at h he id).takeOuts t).mpr ⟨h1, h2, h3⟩⟩

/-- Between a moment at which an entry is claimed and a later one at which it waits again, it was
handed back. -/
theorem exists_handedBack_between (h : s.IsWellFormed) (hij : i ≤ j)
    (hi : s.phaseAt ops id i = some .inProcessing) (hj : s.phaseAt ops id j = some .available) :
    ∃ k, i ≤ k ∧ k < j ∧ TakenOutAt (s.events ops) id .available k := by
  obtain ⟨k, hik, hkj, hk, hk'⟩ := exists_last_before
    (p := fun k => s.phaseAt ops id k = some .inProcessing) hij hi (by rw [hj]; simp)
  refine ⟨k, hik, hkj, (takenOutAt_iff h).mpr ⟨hk, ?_, by simp⟩⟩
  obtain ⟨op, a, he⟩ := exists_event_of_phase_ne (fun heq => hk' (heq ▸ hk))
  rcases (phaseStep_at h he id).move with hm | ⟨hm, -⟩ | ⟨t, t', hm, hm', -⟩
  · exact absurd (hm ▸ hk) hk'
  · rw [hm] at hk
    cases hk
  · have hne : t' ≠ .inProcessing := fun heq => hk' (heq ▸ hm')
    rcases EntryState.eq_available_or_isTerminal hne with rfl | ht
    · exact hm'
    · rw [phaseAt_of_isTerminal h ht hkj hm'] at hj
      cases hj
      cases ht

/-- An entry that has left processing is back in it only after a claim. -/
theorem exists_claimed_between (h : s.IsWellFormed) (hij : i ≤ j) {t : EntryState}
    (hi : s.phaseAt ops id i = some t) (ht : t ≠ .inProcessing)
    (hj : s.phaseAt ops id j = some .inProcessing) :
    ∃ k, i ≤ k ∧ k < j ∧ ClaimedAt (s.events ops) id k := by
  obtain ⟨k, hik, hkj, hk, hk'⟩ := exists_last_before
    (p := fun k => s.phaseAt ops id k ≠ some .inProcessing) hij (by rw [hi]; simpa using ht)
    (by simpa using hj)
  have hk' : s.phaseAt ops id (k + 1) = some .inProcessing := Classical.not_not.mp hk'
  refine ⟨k, hik, hkj, (claimedAt_iff h).mpr ⟨?_, hk'⟩⟩
  obtain ⟨op, a, he⟩ := exists_event_of_phase_ne (fun heq => hk (heq.trans hk'))
  rcases (phaseStep_at h he id).move with hm | ⟨-, hm⟩ | ⟨t, t', hm, hm', hmove⟩
  · exact absurd (hm.trans hk') hk
  · rw [hm] at hk'
    cases hk'
  · rw [hm'] at hk'
    cases hk'
    rw [hm, EntryState.eq_available_of_canMoveTo_inProcessing hmove]

end

/-- At most one active claim, over every run and for every entry. No answer of a claim contains the
entry twice; between two claims of it, it was handed back; between two take-outs of it, it was
claimed; and once it was retired, it is never claimed again. What the answers say is what happens to
the state of the entry. -/
theorem claims_alternate (ops : List (StoreOp × Timestamp)) (id : EntryId) :
    (∀ op a, (op, a) ∈ empty.events ops → (op.claims a).Nodup) ∧
    (∀ i j, i < j → ClaimedAt (empty.events ops) id i → ClaimedAt (empty.events ops) id j →
      ∃ k, i < k ∧ k < j ∧ TakenOutAt (empty.events ops) id .available k) ∧
    (∀ i j t t', i < j → TakenOutAt (empty.events ops) id t i →
      TakenOutAt (empty.events ops) id t' j →
      ∃ k, i < k ∧ k < j ∧ ClaimedAt (empty.events ops) id k) ∧
    (∀ i j t, i < j → TakenOutAt (empty.events ops) id t i → t.isTerminal = true →
      ¬ ClaimedAt (empty.events ops) id j) ∧
    (∀ i, ClaimedAt (empty.events ops) id i ↔
      (empty.run (ops.take i)).2.phase id = some .available ∧
      (empty.run (ops.take (i + 1))).2.phase id = some .inProcessing) ∧
    (∀ i t, TakenOutAt (empty.events ops) id t i ↔
      (empty.run (ops.take i)).2.phase id = some .inProcessing ∧
      (empty.run (ops.take (i + 1))).2.phase id = some t ∧ t ≠ .inProcessing) := by
  have h := isWellFormed_empty
  refine ⟨?_, ?_, ?_, ?_, fun i => claimedAt_iff h, fun i t => takenOutAt_iff h⟩
  · intro op a hmem
    obtain ⟨i, hi⟩ := List.mem_iff_getElem?.mp hmem
    rw [getElem?_events] at hi
    obtain ⟨⟨op', now⟩, ho, heq⟩ := Option.map_eq_some_iff.mp hi
    obtain ⟨rfl, rfl⟩ := Prod.mk.inj heq
    exact nodup_claims (isWellFormed_run h _) (effect_apply _ _ _)
  · intro i j hij hi hj
    obtain ⟨k, hik, hkj, hk⟩ := exists_handedBack_between h (Nat.succ_le_of_lt hij)
      ((claimedAt_iff h).mp hi).2 ((claimedAt_iff h).mp hj).1
    exact ⟨k, hik, hkj, hk⟩
  · intro i j t t' hij hi hj
    obtain ⟨-, hi, ht⟩ := (takenOutAt_iff h).mp hi
    obtain ⟨k, hik, hkj, hk⟩ := exists_claimed_between h (Nat.succ_le_of_lt hij) hi ht
      ((takenOutAt_iff h).mp hj).1
    exact ⟨k, hik, hkj, hk⟩
  · intro i j t hij hi ht hj
    obtain ⟨-, hi, -⟩ := (takenOutAt_iff h).mp hi
    have hlast := phaseAt_of_isTerminal h ht (Nat.succ_le_of_lt hij) hi
    rw [((claimedAt_iff h).mp hj).1] at hlast
    cases hlast
    cases ht

/-- A run in which the first entry is claimed, handed back and claimed again. -/
def reclaimedRun : List (StoreOp × Timestamp) :=
  [(.append ⟨⟨"order", []⟩, ⟨"node"⟩, .none⟩, .epoch), (.claim 1 ⟨"node"⟩ none, .epoch),
   (.release ⟨"node"⟩, .epoch), (.claim 1 ⟨"node"⟩ none, .epoch)]

theorem claims_alternate_reclaimed :
    ClaimedAt (empty.events reclaimedRun) ⟨1⟩ 1 ∧ ClaimedAt (empty.events reclaimedRun) ⟨1⟩ 3 ∧
      ∃ k, 1 < k ∧ k < 3 ∧ TakenOutAt (empty.events reclaimedRun) ⟨1⟩ .available k :=
  have first : ClaimedAt (empty.events reclaimedRun) ⟨1⟩ 1 := ⟨_, _, rfl, by decide⟩
  have second : ClaimedAt (empty.events reclaimedRun) ⟨1⟩ 3 := ⟨_, _, rfl, by decide⟩
  ⟨first, second, (claims_alternate reclaimedRun ⟨1⟩).2.1 1 3 (by decide) first second⟩

end Store

end DurableQueue
