import DurableQueue.Proofs.Lock.ContenderInvariant

/-!
Contenders that wait with nothing on its way to them.

`Acquisition.IsParked` holds of a contender that waits for a signal, connected, while no wake-up is
on its way. `Acquisition.IsQueued` is what it waits behind: its own node and a watch on another one,
both of them there. A contender that is parked was parked one step before, whoever took that step,
or has just set a watch; and as long as it is parked it stays queued.
-/

namespace DurableQueue.Acquisition

/-- Whether a contender waits, connected, with no wake-up on its way. -/
def IsParked (c : Coordination) (a : Acquisition) : Prop :=
  a.stage = .awaiting ∧ c.IsConnected a.client ∧ ¬ a.IsAlerted c

/-- Whether a contender waits with a node of its own in the tree and a watch on a predecessor that
has not fired. -/
def IsQueued (c : Coordination) (a : Acquisition) (node predecessor : String) : Prop :=
  a.state = .waiting node ∧ c.coordinator.hasNode node = true ∧
    ∃ w ∈ a.watches, c.coordinator.watches[w]? = some ⟨predecessor, false⟩

variable {now : Nat} {a a' : Acquisition} {c : Coordination} {ch : ServiceChange}
  {node predecessor : String}

/-- A watch that has not fired is on a node that is there. -/
theorem IsQueued.hasNode (h : a.IsQueued c node predecessor) (hc : c.IsSound) :
    c.coordinator.hasNode predecessor = true := by
  obtain ⟨-, -, w, -, hw⟩ := h
  exact hc.service.watched _ (List.mem_of_getElem? hw) rfl

section others

/-- Who is parked after something that others did was parked before it. -/
theorem IsParked.of_after (hp : a.IsParked (c.after ch)) (h : a.IsRooted c) (hc : c.IsSound) :
    a.IsParked c := by
  obtain ⟨hstage, ⟨s', hs', hconnected⟩, halert⟩ := hp
  have hlater := Coordination.coordinator_later_after c ch
  refine ⟨hstage, ?_, fun h' => halert (h'.later hlater (Coordination.sessionOf_after h.attached ch))⟩
  obtain ⟨s, hs⟩ := session?_isSome hc h.attached
  rcases Coordination.session?_after h.attached hs ch with hsame | ⟨change, rfl, hchanged⟩
  · rw [hsame] at hs'
    cases hs'
    exact ⟨_, hs, hconnected⟩
  · -- what connects a session alerts whoever listens to it
    rw [hchanged] at hs'
    cases hs'
    exact absurd (h.isAlerted_of_change hc (Coordinator.isConnected_changed hconnected)) halert

/-- Who is queued stays queued through everything that others do, or is alerted. -/
theorem IsQueued.after (hq : a.IsQueued c node predecessor) (h : a.IsRooted c) (hc : c.IsSound)
    (hremoval : ∀ path, ch = .removal path → a.node? ≠ some path)
    (halert : ¬ a.IsAlerted (c.after ch)) : a.IsQueued (c.after ch) node predecessor := by
  obtain ⟨hstate, hnode, w, hw, hwatch⟩ := hq
  have hown := node?_of_waiting hstate
  refine ⟨hstate, ?_, w, hw, ?_⟩
  · rcases h.hasNode_after hc hown hnode fun hch => hremoval node hch hown with h' | h'
    · exact absurd h' halert
    · exact h'
  · obtain ⟨x, hx, hpath, -⟩ := (Coordination.coordinator_later_after c ch).watches w _ hwatch
    have hunfired : x.isFired = false := by
      refine Bool.eq_false_iff.mpr fun hfired => halert (.inr (.inl ⟨w, hw, ?_⟩))
      rw [Coordinator.hasFired, hx]
      exact hfired
    rw [hx, ← hunfired, ← show x.path = predecessor from hpath]

end others

section listeners

theorem IsParked.of_hearEvent (hp : a'.IsParked c) (hh : a.hearEvent? c = some a') :
    a.IsParked c := by
  obtain ⟨hstage, hconnected, halert⟩ := hp
  have hback : ¬ a.IsAlerted c := fun h => halert (h.hearEvent hh)
  obtain ⟨s, r, seen, hs, hr, rfl⟩ := hearEvent?_eq_some hh
  exact ⟨hstage, hconnected, hback⟩

theorem IsQueued.hearEvent (hq : a.IsQueued c node predecessor) (hh : a.hearEvent? c = some a') :
    a'.IsQueued c node predecessor := by
  obtain ⟨s, r, seen, hs, hr, rfl⟩ := hearEvent?_eq_some hh
  exact hq

/-- Who has just heard of a watch is not parked. -/
theorem not_isParked_of_hearWatch {w : Nat} (hh : a.hearWatch? w c = some a') : ¬ a'.IsParked c :=
  fun hp => hp.2.2 (isAlerted_of_hearWatch hh)

end listeners

/-- Hearing of a loss of the connection takes no wake-up away. -/
theorem isAlerted_of_lossHeard {rest : List LockSignal} (hsignals : a.signals = .sessionLost :: rest)
    (h : a.IsAlerted c) : ({ a with signals := rest } : Acquisition).IsAlerted c := by
  refine h.of_subset ?_ (List.Subset.refl _) rfl rfl
  intro signal hmem hne
  rw [hsignals] at hmem
  rcases List.mem_cons.mp hmem with rfl | hmem
  · exact absurd rfl hne
  · exact hmem

/-- Who has just set a watch is queued, unless it was alerted in the meantime. -/
theorem isQueued_of_watched (h : a.IsSound c) (stage : a.stage = .watching node predecessor)
    (halert : ¬ (a.withWatch c.coordinator.watches.length).IsAlerted (c.after (.watch predecessor))) :
    (a.withWatch c.coordinator.watches.length).IsQueued (c.after (.watch predecessor))
      node predecessor := by
  have hlater := Coordination.coordinator_later_after c (.watch predecessor)
  have hstate := h.staged.state_of_watching stage
  refine ⟨hstate, ?_, c.coordinator.watches.length, ?_, ?_⟩
  · rcases h.present node predecessor stage with halerted | hnode
    · have hmore := halerted.later hlater (Coordination.sessionOf_after h.attached _)
      have hset : (a.withWatch c.coordinator.watches.length).IsAlerted
          (c.after (.watch predecessor)) :=
        hmore.of_subset (fun _ hmem _ => hmem) (List.subset_append_left _ _) rfl rfl
      exact absurd hset halert
    · exact hnode
  · exact List.mem_append_right _ (List.mem_singleton_self _)
  · exact List.getElem?_concat_length

/-- Who waits and goes on waiting has heard of a loss of the connection. -/
theorem Move.eq_of_awaiting (hm : Move now c a a' ch) (h : a.stage = .awaiting)
    (h' : a'.stage = .awaiting) : ch = .none ∧ ∃ rest, a' = { a with signals := rest } := by
  cases hm with
  | lossHeard stage signals => exact ⟨rfl, _, rfl⟩
  | woken stage signals ne => exact absurd h' (stageOf_ne_awaiting _)
  | timedOut stage due => cases h'
  | refused stage lost =>
    rcases stage with stage | ⟨node, stage⟩ | ⟨node, p, stage⟩
    · cases stage.symm.trans h
    · cases stage.symm.trans h
    · cases stage.symm.trans h
  | discarded stage => cases stage.symm.trans h
  | created stage session connected => cases stage.symm.trans h
  | first stage connected position => cases stage.symm.trans h
  | absent stage connected position => cases stage.symm.trans h
  | behind stage connected position => cases stage.symm.trans h
  | watched stage present => cases stage.symm.trans h
  | vanished stage gone => cases stage.symm.trans h
  | withdrawn stage => cases stage.symm.trans h

/-- Who is parked after a step of its own was parked before it and heard of a loss, or has just set
a watch. -/
theorem Move.parked_cases (hm : Move now c a a' ch) (h : a.IsSound c)
    (hp : a'.IsParked (c.after ch)) :
    (ch = .none ∧ a.IsParked c ∧ ∃ rest, a' = { a with signals := rest }) ∨
      ∃ node predecessor, a.stage = .watching node predecessor ∧
        a'.IsQueued (c.after ch) node predecessor := by
  obtain ⟨hstage, hconnected, halert⟩ := hp
  cases hm with
  | refused stage lost => exact absurd hconnected lost
  | watched stage present =>
    exact .inr ⟨_, _, stage, isQueued_of_watched h stage halert⟩
  | vanished stage gone =>
    refine absurd (.inl ⟨.predecessorDeleted, ?_, by decide⟩) halert
    exact List.mem_append_right _ (List.mem_singleton_self _)
  | lossHeard stage signals =>
    left
    exact ⟨rfl, ⟨stage, hconnected, fun h' => halert (isAlerted_of_lossHeard signals h')⟩, _, rfl⟩
  | created stage session connected => exact absurd hstage (stageOf_ne_awaiting _)
  | first stage connected position => exact absurd hstage (stageOf_ne_awaiting _)
  | absent stage connected position => exact absurd hstage (stageOf_ne_awaiting _)
  | woken stage signals ne => exact absurd hstage (stageOf_ne_awaiting _)
  | _ => cases hstage

end DurableQueue.Acquisition
