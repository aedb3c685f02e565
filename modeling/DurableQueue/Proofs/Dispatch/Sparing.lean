import DurableQueue.Proofs.Dispatch.Custody
import DurableQueue.Proofs.Dispatch.Delivered
import DurableQueue.Proofs.Dispatch.Passage
import DurableQueue.Proofs.Dispatch.Progression
import DurableQueue.Proofs.Store.Lifecycle

/-!
Attempts on a store that is spared failures.

While nobody makes the store fail or operations break down (`BusAction.SparesStore`), it answers the update of an
attempt by what it has stored of the entry (`Store.Answers`). So every attempt of a run is `Attempt.IsSpared`: if
its record is stored or refused, it is booked as that says, and as a failure of the store only if the entry was
purged.
-/

namespace DurableQueue

/-- A handler does not make the store fail. -/
def Effect.SparesStore : Effect → Prop
  | .operate op => op.injects = false
  | _ => True

/-- Nothing is made to fail or to break down. -/
def BusAction.SparesStore : BusAction → Prop
  | .add _ _ registry _ _ => registry.Does Effect.SparesStore
  | .operate op => op.injects = false
  | .breakDown _ => False
  | _ => True

/-- What a store that is spared failures answers to the update of a claim, how that is booked, and the store
after it. -/
inductive Store.Answers (s : Store) (claim next : Entry) (now : Timestamp) :
    Except StoreError Unit → Verdict → Store → Prop where
  /-- The claim is still the stored one. -/
  | accepted {d : Entry} {v : Verdict} (live : s.liveEntry? claim.id = some d)
    (held : isSameClaim d claim = true) (booked : v.state? = some next.state) :
    Answers s claim next now (.ok ()) v (s.replace (resolved d next now))
  /-- The entry was taken back, handed back or resolved, and perhaps claimed again. -/
  | outrun {d : Entry} (live : s.liveEntry? claim.id = some d) (lost : isSameClaim d claim = false) :
    Answers s claim next now (.error (.modifiedConcurrently claim.id)) .lostRace s
  /-- The entry was resolved, and purged after that. -/
  | purged {d : Entry} (gone : s.liveEntry? claim.id = none) (moved : d ∈ s.history) (id : d.id = claim.id)
    (ended : d.state.isTerminal = true) :
    Answers s claim next now (.error (.noEntry claim.id)) .storeError s

/-- What an attempt on this claim can be booked as, on a store that is spared failures. -/
inductive Verdict.IsDue (claim : Entry) (s : Store) : Verdict → Prop where
  | resolved {v : Verdict} {state : EntryState} (state : v.state? = some state) : IsDue claim s v
  | outrun : IsDue claim s .lostRace
  | purged {d : Entry} (moved : d ∈ s.history) (id : d.id = claim.id) : IsDue claim s .storeError

/-- An attempt that does not make the store fail, and is booked as its update was answered. -/
def Attempt.IsSpared (s : Store) : Attempt → Prop
  | .handling _ effects _ | .sleeping _ _ effects _ => ∀ effect ∈ effects, effect.SparesStore
  | .judged _ _ => True
  | .storing e next outcome => next.IsAnswerTo e outcome
  | .booking e v => v.IsDue e s

/-- A bus on which nothing is going to fail. -/
structure Bus.IsSpared (b : Bus) : Prop where
  failuresLeft : b.hub.store.failuresLeft = 0
  unbroken : b.hub.breakdowns = ⟨0, 0, 0⟩
  attempts : ∀ a, b.Makes a → a.IsSpared b.hub.store

namespace Store

variable {s s' : Store} {op : StoreOp} {now : Timestamp} {claim next : Entry} {outcome : DispatchOutcome}
  {v : Verdict} {answer : Except StoreError Unit}

/-- Every update of a stored entry is answered in one of the three ways. -/
theorem answers_update (hs : s.IsWellFormed) (hleft : s.failuresLeft = 0) (hnext : next.IsAnswerTo claim outcome)
    (hstored : ∃ d ∈ s.stored, claim.id = d.id) (now : Timestamp) :
    s.Answers claim next now (s.update claim next now).1
      (Attempt.verdictOn next outcome (s.update claim next now).1) (s.update claim next now).2 := by
  cases hfind : s.liveEntry? claim.id with
  | none =>
    rw [update_of_none hleft hfind]
    obtain ⟨d, hd, hid⟩ := hstored
    have hmoved : d ∈ s.history := by
      refine (List.mem_append.mp hd).resolve_left fun hlive => ?_
      exact List.find?_eq_none.mp hfind d hlive (beq_iff_eq.mpr hid.symm)
    exact .purged hfind hmoved hid.symm (hs.retired d hmoved)
  | some d =>
    cases hsame : isSameClaim d claim with
    | false =>
      rw [update_of_lost hleft hfind hsame]
      exact .outrun hfind hsame
    | true =>
      have hmove : d.state.canMoveTo next.state = true := by
        rw [(isSameClaim_iff.mp hsame).1]
        exact hnext.canMoveTo
      rw [update_of_held hleft hfind hsame hmove]
      exact .accepted hfind hsame hnext.state?_verdict

theorem Answers.isDue (h : s.Answers claim next now answer v s') : v.IsDue claim s' := by
  cases h with
  | accepted live held booked => exact .resolved booked
  | outrun live lost => exact .outrun
  | purged gone moved id ended => exact .purged moved id

theorem Answers.spares (hleft : s.failuresLeft = 0) (h : s.Answers claim next now answer v s') :
    s'.failuresLeft = 0 ∧ s.history ⊆ s'.history := by
  cases h <;> exact ⟨hleft, List.Subset.refl _⟩

/-- An operation that makes nothing fail. -/
theorem spares_apply (hleft : s.failuresLeft = 0) (hop : op.injects = false) (now : Timestamp) :
    (s.apply op now).2.failuresLeft = 0 ∧ s.history ⊆ (s.apply op now).2.history := by
  refine ⟨?_, history_subset_of_effect (effect_apply s op now)⟩
  rw [failuresLeft_apply_of_not_injects hop, hleft]

theorem Tended.spares (hleft : s.failuresLeft = 0) (htended : s.Tended now s') :
    s'.failuresLeft = 0 ∧ s.history ⊆ s'.history := by
  obtain rfl | ⟨op, hroutine, rfl⟩ := htended
  · exact ⟨hleft, List.Subset.refl _⟩
  · refine spares_apply hleft ?_ now
    cases op <;> first | rfl | exact hroutine.elim

end Store

namespace Attempt

variable {a a' : Attempt} {s s' : Store} {h h' : Hub} {n n' : Node} {draw : Draw} {p : Progress}

/-- What is purged stays purged. -/
theorem IsSpared.mono (hhistory : s.history ⊆ s'.history) (ha : a.IsSpared s) : a.IsSpared s' := by
  cases a with
  | booking e v =>
    cases ha with
    | resolved state => exact .resolved state
    | outrun => exact .outrun
    | purged moved id => exact .purged (hhistory moved) id
  | _ => exact ha

theorem isSpared_begin_ (hn : n.registry.Does Effect.SparesStore) (e : Entry) (s : Store) :
    (begin_ n e).1.IsSpared s := by
  unfold begin_
  simp only [Node.count]
  cases hprepare : n.registry.prepare e with
  | ok activity => exact Registry.Does.prepare hn hprepare
  | error outcome => trivial

/-- What a step of an attempt leaves of the hub. -/
structure Spares (h h' : Hub) : Prop where
  failuresLeft : h'.store.failuresLeft = 0
  unbroken : h'.breakdowns = ⟨0, 0, 0⟩
  history : h.store.history ⊆ h'.store.history

theorem spares_perform (hleft : h.store.failuresLeft = 0) (hunbroken : h.breakdowns = ⟨0, 0, 0⟩)
    {effect : Effect} (heffect : effect.SparesStore) (n : Node) (e : Entry) :
    Spares h (perform h n e effect).1 := by
  cases effect with
  | operate op =>
    have hspares := Store.spares_apply hleft heffect h.time
    rw [← h.store_operate] at hspares
    exact ⟨hspares.1, (h.breakdowns_operate op).trans hunbroken, hspares.2⟩
  | _ => exact ⟨hleft, hunbroken, List.Subset.refl _⟩

/-- A step of an attempt makes nothing fail, and leaves an attempt that does not either. -/
theorem IsSpared.step? (hs : h.store.IsWellFormed) (hleft : h.store.failuresLeft = 0)
    (hunbroken : h.breakdowns = ⟨0, 0, 0⟩) (hstored : ∃ d ∈ h.store.stored, a.entry.id = d.id)
    (ha : a.IsSpared h.store) (hstep : a.step? draw h n = some (p, h', n')) :
    Spares h h' ∧ ∀ a', p = .going a' → a'.IsSpared h'.store := by
  have hrest : Spares h h := ⟨hleft, hunbroken, List.Subset.refl _⟩
  cases a with
  | handling e effects result =>
    cases effects with
    | nil =>
      cases hstep
      exact ⟨hrest, fun a' heq => by cases heq; trivial⟩
    | cons effect effects =>
      obtain ⟨heffect, heffects⟩ := List.forall_mem_cons.mp ha
      cases effect with
      | sleep span =>
        cases hstep
        exact ⟨hrest, fun a' heq => by cases heq; exact heffects⟩
      | _ =>
        cases hstep
        exact ⟨spares_perform hleft hunbroken heffect n e, fun a' heq => by cases heq; exact heffects⟩
  | sleeping e wakeAt effects result =>
    simp only [Attempt.step?] at hstep
    split at hstep
    · cases hstep
      exact ⟨hrest, fun a' heq => by cases heq; exact ha⟩
    · cases hstep
  | judged e outcome =>
    simp only [Attempt.step?] at hstep
    split at hstep
    · rename_i next hnext
      cases hstep
      exact ⟨hrest, fun a' heq => by cases heq; exact ⟨_, _, _, hnext⟩⟩
    · cases hstep
      exact ⟨hrest, fun a' heq => by cases heq⟩
  | storing e next outcome =>
    have hanswers := Store.answers_update hs hleft ha hstored h.time
    have hupdate : h.breakdowns.update = 0 := congrArg Breakdowns.update hunbroken
    simp only [Attempt.step?, store, hupdate] at hstep
    cases hstep
    obtain ⟨hleft', hhistory⟩ := hanswers.spares hleft
    exact ⟨⟨hleft', hunbroken, hhistory⟩, fun a' heq => by cases heq; exact hanswers.isDue⟩
  | booking e v =>
    cases hstep
    exact ⟨hrest, fun a' heq => by cases heq⟩

end Attempt

namespace Registry

/-- What handlers do not do, they do not do whatever they remember. -/
theorem SameHandlers.does {p : Effect → Prop} {r r' : Registry} (hsame : r.SameHandlers r') (hr : r.Does p) :
    r'.Does p := by
  intro handler' hhandler' deliveries event context
  have hmem : handler'.handler ∈ r.handlers.map RegisteredHandler.handler :=
    hsame ▸ List.mem_map_of_mem hhandler'
  obtain ⟨handler, hhandler, heq⟩ := List.mem_map.mp hmem
  rw [← heq]
  exact hr handler hhandler deliveries event context

end Registry

namespace Bus

variable {b b' : Bus} {x : BusAction} {a : Attempt}

/-- The claim of an attempt is held. -/
theorem Makes.holds (ha : b.Makes a) : b.Holds a.entry := by
  rcases ha with ⟨n, hn, hbusy⟩ | ⟨c, hc, hattempt⟩
  · exact .inl ⟨n, hn, .inr (.inr ⟨_, hbusy, rfl⟩)⟩
  · refine .inr ⟨c, hc, ?_⟩
    cases c with
    | process k stage =>
      cases stage with
      | attempting count a' rest =>
        cases hattempt
        exact List.mem_cons_self
      | _ => cases hattempt
    | _ => cases hattempt

/-- Nothing is done to the hub, and an attempt may be new. -/
theorem IsSpared.of_hub (h : b.IsSpared) (hhub : b'.hub = b.hub)
    (hattempts : ∀ a, b'.Makes a → b.Makes a ∨ a.IsSpared b.hub.store) : b'.IsSpared := by
  refine ⟨hhub ▸ h.failuresLeft, hhub ▸ h.unbroken, fun a ha => ?_⟩
  rw [hhub]
  exact (hattempts a ha).elim (h.attempts a) id

/-- Whatever happens makes nothing fail, if it spares the store. -/
theorem IsSpared.act (h : b.IsSpared) (hs : b.hub.store.IsWellFormed)
    (hregistries : ∀ n ∈ b.nodes, n.registry.Does Effect.SparesStore)
    (hstored : ∀ a, b.Makes a → ∃ d ∈ b.hub.store.stored, a.entry.id = d.id) (hx : x.SparesStore) :
    (b.act x).IsSpared := by
  cases b.works_act x with
  | tends store unbroken attempts =>
    obtain ⟨hleft, hhistory⟩ := store.spares h.failuresLeft
    exact ⟨hleft, unbroken h.unbroken, fun a ha => (h.attempts a (attempts a ha)).mono hhistory⟩
  | @operates op asked hub attempts =>
    subst asked
    have hspares := Store.spares_apply h.failuresLeft hx b.hub.time
    rw [← b.hub.store_operate, ← hub] at hspares
    have hunbroken : (b.act (.operate op)).hub.breakdowns = ⟨0, 0, 0⟩ := by
      rw [hub, b.hub.breakdowns_operate op, h.unbroken]
    exact ⟨hspares.1, hunbroken, fun a ha => (h.attempts a (attempts a ha)).mono hspares.2⟩
  | breaks asked store attempts =>
    subst asked
    exact hx.elim
  | begins node hub attempts =>
    refine h.of_hub hub fun a ha => (attempts a ha).imp_right ?_
    rintro rfl
    exact Attempt.isSpared_begin_ (hregistries _ node) _ _
  | given asked hub attempts =>
    refine h.of_hub hub fun a ha => (attempts a ha).imp_right ?_
    rintro rfl
    trivial
  | goes node made step hub attempts =>
    have hgoes := (h.attempts _ made).step? hs h.failuresLeft h.unbroken (hstored _ made) step
    rw [← hub] at hgoes
    refine ⟨hgoes.1.failuresLeft, hgoes.1.unbroken, fun a ha => ?_⟩
    rcases attempts a ha with hold | hnew
    · exact (h.attempts a hold).mono hgoes.1.history
    · exact hgoes.2 a hnew

end Bus

namespace Scene

variable {start : Timestamp} {actions : List BusAction}

/-- The claim of an attempt is stored, or another record of its entry. -/
theorem stored_of_makes {a : Attempt} (ha : ((startingAt start).run actions).bus.Makes a) :
    ∃ d ∈ ((startingAt start).run actions).bus.hub.store.stored, a.entry.id = d.id := by
  have hkept := isKept_run start actions
  obtain ⟨d, hd, hcopy⟩ := hkept.vouched _ (hkept.held _ ha.holds)
  exact ⟨d, hd, hcopy.id⟩

/-- Dispatchers do what the handlers do with which they were added. -/
theorem does_run {p : Effect → Prop}
    (hdoes : ∀ id config registry clock isAttached,
      .add id config registry clock isAttached ∈ actions → registry.Does p)
    {n : Node} (hn : n ∈ ((startingAt start).run actions).bus.nodes) : n.registry.Does p := by
  obtain ⟨k, hk⟩ := List.mem_iff_getElem?.mp hn
  have hemploys := employs_run start actions
  have hlt : k < (actions.filterMap BusAction.registry?).length := by
    rw [hemploys.length]
    exact (List.getElem?_eq_some_iff.mp hk).1
  have hr := List.getElem?_eq_getElem hlt
  obtain ⟨x, hx, hasked⟩ := List.mem_filterMap.mp (List.mem_of_getElem? hr)
  refine (hemploys.same k _ n hr hk).does ?_
  cases x with
  | add id config registry clock isAttached =>
    cases hasked
    exact hdoes id config _ clock isAttached hx
  | _ => cases hasked

/-- In a run that spares the store nothing is going to fail. -/
theorem isSpared_run (start : Timestamp) (actions : List BusAction) (hspares : ∀ x ∈ actions, x.SparesStore) :
    ((startingAt start).run actions).bus.IsSpared := by
  induction actions using List.reverseRecOn with
  | nil => exact ⟨rfl, rfl, fun a ha => by rcases ha with ⟨n, hn, -⟩ | ⟨c, hc, -⟩ <;> contradiction⟩
  | append_singleton actions x ih =>
    have hbefore : ∀ y ∈ actions, y.SparesStore := fun y hy => hspares y (List.mem_append_left _ hy)
    have hx := hspares x (List.mem_append_right _ List.mem_cons_self)
    rw [run_concat]
    rcases ((startingAt start).run actions).act_cases x with ⟨-, hsame⟩ | ⟨-, hact⟩
    · rw [hsame]
      exact ih hbefore
    · rw [hact]
      refine (ih hbefore).act (isKept_run start actions).wellFormed ?_ (fun _ ha => stored_of_makes ha) hx
      exact fun n hn => does_run (fun _ _ _ _ _ hadd => hbefore _ hadd) hn

end Scene

end DurableQueue
