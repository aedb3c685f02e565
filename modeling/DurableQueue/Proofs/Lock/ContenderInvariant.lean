import DurableQueue.Proofs.Lock.Contender

/-!
What a contender keeps while it and everyone else go on.

`Acquisition.IsRooted` ties a contender to the service: its client is there, the number of its node
was given out, and its node belongs to its session. It survives every change of the service, since
numbers are not given out twice and a session that changes its identity loses its nodes.
`Acquisition.IsSound` adds the fit of stage and state, and that a contender about to set a watch has
its node in the tree or is alerted. Others keep it (`IsSound.after`), and so do the contender's own
moves (`IsSound.of_move`) and its listeners (`IsSound.of_hearEvent`, `IsSound.of_hearWatch`).
-/

namespace DurableQueue.Acquisition

/-- How a contender is tied to the service. -/
structure IsRooted (c : Coordination) (a : Acquisition) : Prop where
  attached : a.client < c.clients.length
  seen : ∀ s, c.session? a.client = some s → a.seenEvents ≤ s.events.length
  numbered : ∀ node, a.node? = some node →
    ∃ n, node = nodePath a.directory n ∧ n < c.coordinator.nextNumber a.directory
  owned : ∀ node, a.node? = some node → ∀ x ∈ c.coordinator.nodes, x.path = node →
    ∃ s, c.session? a.client = some s ∧ x.owner = s.identity

/-- What a contender keeps. -/
structure IsSound (c : Coordination) (a : Acquisition) : Prop extends a.IsRooted c where
  heard : a.IsHeard
  staged : a.IsStaged
  present : ∀ node predecessor, a.stage = .watching node predecessor →
    a.IsAlerted c ∨ c.coordinator.hasNode node = true

variable {now : Nat} {a a' : Acquisition} {c : Coordination} {ch : ServiceChange} {node : String}

theorem session?_isSome (hc : c.IsSound) (h : a.client < c.clients.length) :
    ∃ s, c.session? a.client = some s :=
  ⟨_, List.getElem?_eq_getElem (hc.sessionOf_lt h)⟩

namespace IsRooted

theorem congr (h : a.IsRooted c) (hclient : a'.client = a.client)
    (hdirectory : a'.directory = a.directory)
    (hseen : ∀ s, c.session? a.client = some s → a'.seenEvents ≤ s.events.length)
    (hnode : a'.node? = a.node? ∨ a'.node? = none) : a'.IsRooted c := by
  have hold : ∀ node, a'.node? = some node → a.node? = some node := by
    intro node hn
    rcases hnode with hnode | hnode
    · rw [← hnode]
      exact hn
    · rw [hnode] at hn
      cases hn
  constructor
  · rw [hclient]
    exact h.attached
  · rw [hclient]
    exact hseen
  · intro node hn
    rw [hdirectory]
    exact h.numbered node (hold node hn)
  · intro node hn
    rw [hclient]
    exact h.owned node (hold node hn)

/-- A change of its session other than a loss of the connection alerts a contender. -/
theorem isAlerted_of_change (h : a.IsRooted c) (hc : c.IsSound) {change : SessionEvent}
    (hne : change ≠ .disconnected) :
    a.IsAlerted (c.after (.session change (c.sessionOf a.client))) := by
  obtain ⟨s, hs⟩ := session?_isSome hc h.attached
  have hs' : (c.after (.session change (c.sessionOf a.client))).session? a.client =
      some (c.coordinator.changed change s) := by
    rw [Coordination.session?, Coordination.sessionOf_after h.attached, Coordination.after,
      Coordinator.sessions_changeOf, List.getElem?_modify_eq]
    rw [Coordination.session?] at hs
    rw [hs]
    rfl
  exact isAlerted_of_recorded hs' (Coordinator.events_changed _ _ _) hne (h.seen s hs)

/-- A tie to the service survives every change of it. -/
theorem after (h : a.IsRooted c) (hc : c.IsSound) (ch : ServiceChange) :
    a.IsRooted (c.after ch) := by
  obtain ⟨s, hs⟩ := session?_isSome hc h.attached
  have hlater := Coordination.coordinator_later_after c ch
  have hsession := Coordination.session?_after h.attached hs ch
  constructor
  · exact Nat.lt_of_lt_of_le h.attached (Coordination.length_clients_after c ch)
  · intro s' hs'
    have hseen := h.seen s hs
    rcases hsession with hsame | ⟨change, -, hchanged⟩
    · rw [hsame] at hs'
      cases hs'
      exact hseen
    · rw [hchanged] at hs'
      cases hs'
      rw [Coordinator.events_changed, List.length_append]
      omega
  · intro node hn
    obtain ⟨n, hpath, hlt⟩ := h.numbered node hn
    exact ⟨n, hpath, Nat.lt_of_lt_of_le hlt (hlater.numbers _)⟩
  · intro node hn x hx hpath
    rcases Coordination.mem_nodes_after hx with hold | ⟨identity, directory, -, rfl⟩
    · obtain ⟨s', hs', howner⟩ := h.owned node hn x hold hpath
      exact Coordination.owner_after h.attached hs' howner hx
    · -- a new node has a number that no contender has yet
      obtain ⟨n, rfl, hlt⟩ := h.numbered node hn
      obtain ⟨rfl, rfl⟩ := nodePath_injective hpath
      exact absurd hlt (Nat.lt_irrefl _)

/-- A contender keeps its node unless it is removed by path; if its session expires, it is alerted. -/
theorem hasNode_after (h : a.IsRooted c) (hc : c.IsSound) (hnode : a.node? = some node)
    (hn : c.coordinator.hasNode node = true) (hremoval : ch ≠ .removal node) :
    a.IsAlerted (c.after ch) ∨ (c.after ch).coordinator.hasNode node = true := by
  by_cases hexpired : ch = .session .expired (c.sessionOf a.client)
  · left
    rw [hexpired]
    exact h.isAlerted_of_change hc (by decide)
  · right
    refine Coordination.hasNode_after hn hremoval fun session s x hch hs hx hpath howner => ?_
    obtain ⟨own, hown, howner'⟩ := h.owned node hnode x hx hpath
    have hsession := hc.service.distinct _ _ _ _ hs hown (howner.symm.trans howner')
    exact hexpired (by rw [hch, hsession])

end IsRooted

/-- A contender begins sound. -/
theorem IsSound.begin_ {client : Nat} (h : client < c.clients.length) (directory : String)
    (deadline : Nat) : (begin_ c client directory deadline).IsSound c where
  attached := h
  seen := by
    intro s hs
    rw [Coordination.session?] at hs
    have hs' : c.coordinator.sessions[c.sessionOf client]? = some s := hs
    simp [Acquisition.begin_, Coordinator.eventCount, hs']
  numbered := by
    intro node hn
    cases hn
  owned := by
    intro node hn
    cases hn
  heard := by
    intro signal hmem
    cases hmem
  staged := rfl
  present := by
    intro node predecessor hstage
    cases hstage

namespace IsSound

/-- What others do leaves a contender sound, as long as they do not remove its node by path. -/
theorem after (h : a.IsSound c) (hc : c.IsSound)
    (hremoval : ∀ path, ch = .removal path → a.node? ≠ some path) : a.IsSound (c.after ch) where
  toIsRooted := h.toIsRooted.after hc ch
  heard := h.heard
  staged := h.staged
  present := by
    intro node predecessor hstage
    have hlater := Coordination.coordinator_later_after c ch
    rcases h.present node predecessor hstage with halert | hnode
    · exact .inl (halert.later hlater (Coordination.sessionOf_after h.attached ch))
    · have hown := node?_of_waiting (h.staged.state_of_watching hstage)
      exact h.toIsRooted.hasNode_after hc hown hnode fun hch => hremoval node hch hown

theorem rooted_of_move (h : a.IsSound c) (hc : c.IsSound) (hm : Move now c a a' ch) :
    a'.IsRooted (c.after ch) := by
  rcases hm.node?_cases h.heard h.staged with ⟨s, hs, rfl, hnode⟩ | hnode
  · have hrooted := h.toIsRooted.after hc (.node s.identity a.directory)
    constructor
    · rw [hm.client_eq]
      exact hrooted.attached
    · rw [hm.client_eq, hm.seenEvents_eq]
      exact hrooted.seen
    · intro node hn
      rw [hnode] at hn
      cases hn
      refine ⟨_, by rw [hm.directory_eq], ?_⟩
      rw [hm.directory_eq, Coordination.after, Coordinator.nextNumber_withNode, parentOf_start,
        if_pos rfl]
      omega
    · intro node hn x hx hpath
      rw [hnode] at hn
      cases hn
      rcases Coordination.mem_nodes_after hx with hold | ⟨identity, directory, hch, rfl⟩
      · -- the number is new
        have hfresh := hc.service.hasNode_next_eq_false (Nat.le_refl (c.coordinator.nextNumber a.directory))
        rw [Coordinator.hasNode_iff.mpr ⟨x, hold, hpath⟩] at hfresh
        cases hfresh
      · cases hch
        rw [hm.client_eq]
        exact ⟨s, hs, rfl⟩
  · have hrooted : a'.IsRooted c := h.toIsRooted.congr hm.client_eq hm.directory_eq
      (by rw [hm.seenEvents_eq]; exact h.seen) hnode
    exact hrooted.after hc ch

/-- A contender stays sound when it moves. -/
theorem of_move (h : a.IsSound c) (hc : c.IsSound) (hm : Move now c a a' ch) :
    a'.IsSound (c.after ch) where
  toIsRooted := h.rooted_of_move hc hm
  heard := hm.isHeard h.heard
  staged := hm.isStaged h.heard h.staged
  present := by
    intro node predecessor hstage
    cases hm with
    | behind stage connected position =>
      -- its own name was among the answers
      right
      cases hstage
      have hown := node?_of_waiting (h.staged.state_of_listing stage)
      obtain ⟨n, rfl, -⟩ := h.numbered node hown
      rw [nameOf_nodePath] at position
      exact Coordinator.hasNode_of_mem_childNames hc.service.holdsLockNodes
        (NodePosition.mem_of_of_eq_behind position).1
    | lossHeard stage signals => cases stage.symm.trans hstage
    | created stage session connected => exact absurd hstage (stageOf_ne_watching _ _ _)
    | first stage connected position => exact absurd hstage (stageOf_ne_watching _ _ _)
    | absent stage connected position => exact absurd hstage (stageOf_ne_watching _ _ _)
    | woken stage signals ne => exact absurd hstage (stageOf_ne_watching _ _ _)
    | _ => cases hstage

/-- A contender stays sound when it hears of its session. -/
theorem of_hearEvent (h : a.IsSound c) (hh : a.hearEvent? c = some a') : a'.IsSound c := by
  have halert : a.IsAlerted c → a'.IsAlerted c := fun halert => halert.hearEvent hh
  obtain ⟨s, r, seen, hs, hr, rfl⟩ := hearEvent?_eq_some hh
  constructor
  · refine h.toIsRooted.congr rfl rfl ?_ (.inl rfl)
    intro s' hs'
    rw [hs] at hs'
    cases hs'
    exact Session.seen_le_of_receive? hr
  · intro signal hmem
    rcases List.mem_append.mp hmem with hmem | hmem
    · exact h.heard signal hmem
    · rw [List.mem_singleton.mp hmem]
      exact isHeard_signalOf r
  · exact h.staged
  · intro node predecessor hstage
    exact (h.present node predecessor hstage).imp halert id

/-- A contender stays sound when it hears of a watch. -/
theorem of_hearWatch {w : Nat} (h : a.IsSound c) (hh : a.hearWatch? w c = some a') :
    a'.IsSound c := by
  have halert := isAlerted_of_hearWatch hh
  obtain ⟨-, -, rfl⟩ := hearWatch?_eq_some hh
  constructor
  · exact h.toIsRooted.congr rfl rfl h.seen (.inl rfl)
  · intro signal hmem
    rcases List.mem_append.mp hmem with hmem | hmem
    · exact h.heard signal hmem
    · rw [List.mem_singleton.mp hmem]
      rfl
  · exact h.staged
  · intro node predecessor hstage
    exact .inl halert

end IsSound

end DurableQueue.Acquisition
