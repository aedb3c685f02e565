import DurableQueue.Proofs.Dispatch.Vigil

/-!
What a claim loop takes while it waits for commits, and how its waits end.

A wait that has taken a commit of its node returns, and one that is given up has taken none
(`Vigil.Judges`). All that arrived was taken or is unread, and a wait that returns has left nothing
unread (`Vigil.Accounts`). Between a commit of the node and the return there is no place where a wait
can be given up, so none of these commits is lost (`Vigil.own_commits_answered`).
-/

namespace DurableQueue

open VigilEvent

/-- What was told when a wait returns: it took all that had arrived, last of all a batch in which a commit of the
node is, and before this batch it had taken none. -/
def VigilEvent.Returns (id : NodeId) (i : Nat) (log : List VigilEvent) : Prop :=
  arrivals log = taken log ∧ ∃ start e es, log = start ++ [.drained i es] ∧ Receives id i e start ∧
    ∃ c ∈ e :: es, c.owner = id

namespace Vigil

/-- How waits end. -/
structure Judges (v : Vigil) (log : List VigilEvent) : Prop where
  /-- Only waits that have begun are told of. -/
  numbered : ∀ x ∈ log, ∀ i, x.wait? = some i → i ≤ v.waits
  undecided : v.phase ≠ .outside → .returned v.waits ∉ log ∧ .cancelled v.waits ∉ log
  exclusive : ∀ i, .returned i ∈ log → .cancelled i ∉ log
  judged : ∀ i, TookOwn v.node.id i log ↔ .returned i ∈ log ∨ i = v.waits ∧ v.phase = .draining true

/-- What waits take. -/
structure Accounts (v : Vigil) (log : List VigilEvent) : Prop where
  balanced : v.isListening = true → arrivals log = taken log ++ v.unread
  receives : ∀ own, v.phase = .draining own →
    ∃ e, Receives v.node.id v.waits e log ∧ own = (e.owner == v.node.id)
  returned : ∀ i before after, log = before ++ .returned i :: after → Returns v.node.id i before

section Steps

variable {v v' : Vigil} {log events : List VigilEvent}

namespace Judges

/-- A wait that waits has taken no commit of the node. -/
theorem not_tookOwn (h : v.Judges log) (hphase : v.phase = .awaiting) : ¬ TookOwn v.node.id v.waits log := by
  rw [h.judged]
  rintro (hreturned | ⟨-, hdraining⟩)
  · exact (h.undecided (by simp [hphase])).1 hreturned
  · cases hphase.symm.trans hdraining

theorem not_mem_of_later (h : v.Judges log) {x : VigilEvent} (hx : x.wait? = some (v.waits + 1)) : x ∉ log :=
  fun hmem => absurd (h.numbered x hmem _ hx) (Nat.not_succ_le_self _)

/-- Events of the last wait are numbered as it is. -/
theorem numbered_append (h : v.Judges log) (hle : v.waits ≤ v'.waits)
    (hevents : ∀ x ∈ events, ∀ i, x.wait? = some i → i = v'.waits) :
    ∀ x ∈ log ++ events, ∀ i, x.wait? = some i → i ≤ v'.waits := by
  intro x hx i hi
  rcases List.mem_append.mp hx with hx | hx
  · exact (h.numbered x hx i hi).trans hle
  · exact (hevents x hx i hi).le

theorem turn (h : v.Judges log) (hid : v'.node.id = v.node.id) (hturn : v.Turn v' events) :
    v'.Judges (log ++ events) := by
  cases hturn with
  | quiet phase waits leaves =>
    rw [List.append_nil]
    obtain ⟨hnumbered, hundecided, hexclusive, hjudged⟩ := h
    rw [← waits] at hnumbered hundecided hjudged
    rw [← phase] at hundecided hjudged
    rw [← hid] at hjudged
    exact ⟨hnumbered, hundecided, hexclusive, hjudged⟩
  | arrived e phase waits leaves =>
    refine ⟨h.numbered_append waits.ge (by simp [wait?]), ?_, ?_, ?_⟩
    · rw [phase, waits]
      simpa using h.undecided
    · simpa using h.exclusive
    · rw [hid, phase, waits]
      simpa [wait?] using h.judged
  | begun phase phase' waits leaves =>
    have hreturned : .returned v'.waits ∉ log := waits ▸ h.not_mem_of_later rfl
    have hcancelled : .cancelled v'.waits ∉ log := waits ▸ h.not_mem_of_later rfl
    refine ⟨h.numbered_append (by omega) (by simp [wait?]), fun _ => ?_, ?_, fun i => ?_⟩
    · simp [hreturned, hcancelled]
    · simpa using h.exclusive
    · simp [hid, h.judged, phase, phase', takes]
  | @received e rest phase unread phase' waits leaves =>
    obtain ⟨hreturned, hcancelled⟩ := h.undecided (by simp [phase])
    refine ⟨h.numbered_append waits.ge (by simp [wait?]), fun _ => ?_, ?_, fun i => ?_⟩
    · simp [waits, hreturned, hcancelled]
    · simpa using h.exclusive
    · simp [hid, h.judged, phase, phase', waits, wait?, takes, @eq_comm Nat i v.waits]
  | drained phase foreign phase' waits leaves =>
    obtain ⟨hreturned, hcancelled⟩ := h.undecided (by simp [phase])
    have hnone : ¬ ∃ e ∈ v.unread, e.owner = v.node.id := fun ⟨e, he, howner⟩ => foreign e he howner
    refine ⟨h.numbered_append waits.ge (by simp [wait?]), fun _ => ?_, ?_, fun i => ?_⟩
    · simp [waits, hreturned, hcancelled]
    · simpa using h.exclusive
    · simp [hid, h.judged, phase, phase', takes, hnone]
  | @returned own phase heard phase' waits leaves =>
    obtain ⟨-, hcancelled⟩ := h.undecided (by simp [phase])
    refine ⟨h.numbered_append waits.ge (by simp [wait?]), fun hinside => absurd phase' hinside, ?_,
      fun i => ?_⟩
    · intro i hi
      by_cases hlast : i = v.waits
      · simp [hlast, hcancelled]
      · simpa [hlast, waits] using h.exclusive i (by simpa [hlast, waits] using hi)
    · -- of the last wait, the commit of the node is the one received or among those just taken
      by_cases hlast : i = v.waits
      · simpa [hid, h.judged, phase, waits, wait?, takes, hlast, or_assoc] using .inr heard
      · simp [hid, h.judged, phase', waits, wait?, hlast, Ne.symm hlast]
  | cancelled phase phase' waits leaves =>
    obtain ⟨hreturned, -⟩ := h.undecided (by simp [phase])
    refine ⟨h.numbered_append waits.ge (by simp [wait?]), fun hinside => absurd phase' hinside, ?_,
      fun i => ?_⟩
    · intro i hi
      have hlog : .returned i ∈ log := by simpa using hi
      have hlast : i ≠ v.waits := fun heq => hreturned (heq ▸ hlog)
      simpa [waits, hlast] using h.exclusive i hlog
    · simp [hid, h.judged, phase, phase', takes]

end Judges

namespace Accounts

/-- What arrives adds to what is unread, and what is taken comes off it. -/
theorem balanced_append {left : List TransactionEvent} (h : v.Accounts log) (hleaves : v.Leaves v' left)
    (hflow : v.unread ++ arrivals events = taken events ++ left) (hlistens : v'.isListening = true) :
    arrivals (log ++ events) = taken (log ++ events) ++ v'.unread := by
  obtain ⟨hlistens, hunread⟩ := hleaves hlistens
  calc arrivals (log ++ events) = taken log ++ (v.unread ++ arrivals events) := by
        rw [arrivals_append, h.balanced hlistens, List.append_assoc]
    _ = taken (log ++ events) ++ v'.unread := by
        rw [hflow, hunread, taken_append, List.append_assoc]

/-- Returns that were told stay as they were. -/
theorem returned_append (h : v.Accounts log) (hid : v'.node.id = v.node.id)
    (hevents : ∀ x ∈ events, ∀ i, x ≠ .returned i) (i : Nat) (before after : List VigilEvent)
    (hsplit : log ++ events = before ++ .returned i :: after) : Returns v'.node.id i before := by
  obtain ⟨rest, hlog⟩ := returned_split hevents hsplit
  rw [hid]
  exact h.returned i before rest hlog

/-- Where no wait is between its steps and none returns, only what arrived and was taken is to be kept. -/
theorem of_settled {left : List TransactionEvent} (h : v.Accounts log) (hid : v'.node.id = v.node.id)
    (hleaves : v.Leaves v' left) (hflow : v.unread ++ arrivals events = taken events ++ left)
    (hphase : ∀ own, v'.phase ≠ .draining own) (hevents : ∀ x ∈ events, ∀ i, x ≠ .returned i) :
    v'.Accounts (log ++ events) where
  balanced := h.balanced_append hleaves hflow
  receives own hdraining := absurd hdraining (hphase own)
  returned := h.returned_append hid hevents

/-- A wait that takes all there is when one of the commits is of its node may return. -/
theorem returns (h : v.Accounts log) (hsound : v.IsSound) {own : Bool} (hphase : v.phase = .draining own)
    (heard : own = true ∨ ∃ e ∈ v.unread, e.owner = v.node.id) :
    Returns v.node.id v.waits (log ++ [.drained v.waits v.unread]) := by
  obtain ⟨e, hreceives, hown⟩ := h.receives own hphase
  refine ⟨?_, log, e, v.unread, rfl, hreceives, ?_⟩
  · simp [h.balanced (hsound.listens own hphase), brings, takes]
  · rcases heard with rfl | ⟨c, hc, howner⟩
    · exact ⟨e, List.mem_cons_self, eq_of_beq hown.symm⟩
    · exact ⟨c, List.mem_cons_of_mem e hc, howner⟩

theorem turn (h : v.Accounts log) (hsound : v.IsSound) (hjudges : v.Judges log) (hid : v'.node.id = v.node.id)
    (hturn : v.Turn v' events) : v'.Accounts (log ++ events) := by
  cases hturn with
  | quiet phase waits leaves =>
    refine ⟨h.balanced_append leaves (by simp), ?_, h.returned_append hid (by simp)⟩
    rw [phase, hid, waits, List.append_nil]
    exact h.receives
  | arrived e phase waits leaves =>
    refine ⟨h.balanced_append leaves (by simp [brings, takes]), fun own hdraining => ?_,
      h.returned_append hid (by simp)⟩
    obtain ⟨first, hreceives, hown⟩ := h.receives own (phase.symm.trans hdraining)
    rw [hid, waits]
    exact ⟨first, hreceives.arrived e, hown⟩
  | begun phase phase' waits leaves =>
    exact h.of_settled hid leaves (by simp [brings, takes]) (by simp [phase']) (by simp)
  | @received e rest phase unread phase' waits leaves =>
    refine ⟨h.balanced_append leaves (by simp [brings, takes, unread]), fun own hdraining => ?_,
      h.returned_append hid (by simp)⟩
    obtain rfl := WaitPhase.draining.inj (phase'.symm.trans hdraining)
    -- a batch begins, and what the wait took before is of other nodes because it still waited
    rw [hid, waits]
    exact ⟨e, ⟨log, [], rfl, nofun, hjudges.not_tookOwn phase⟩, rfl⟩
  | drained phase foreign phase' waits leaves =>
    exact h.of_settled hid leaves (by simp [brings, takes]) (by simp [phase']) (by simp)
  | @returned own phase heard phase' waits leaves =>
    refine ⟨h.balanced_append leaves (by simp [brings, takes]), fun own hdraining => ?_, ?_⟩
    · cases phase'.symm.trans hdraining
    · intro i before after hsplit
      rw [List.append_cons] at hsplit
      -- either the return is this one, or it was told before
      rcases returned_split_last hsplit with ⟨rfl, rfl⟩ | ⟨rest, hlog⟩
      · rw [hid, waits]
        exact h.returns hsound phase heard
      · exact h.returned_append hid (by simp) i before rest hlog
  | cancelled phase phase' waits leaves =>
    exact h.of_settled hid leaves (by simp [brings, takes]) (by simp [phase']) (by simp)

end Accounts

end Steps

/-- A dispatcher is as a run tells. -/
structure Keeps (id : NodeId) (v : Vigil) (log : List VigilEvent) : Prop where
  id : v.node.id = id
  isSound : v.IsSound
  judges : v.Judges log
  accounts : v.Accounts log

namespace Keeps

variable {id : NodeId} {v : Vigil} {log : List VigilEvent}

theorem opened (h : Hub) (n : Node) : Keeps n.id (opened h n) [] where
  id := rfl
  isSound := isSound_opened h n
  judges := by
    refine ⟨nofun, fun hphase => absurd rfl hphase, nofun, fun i => iff_of_false not_tookOwn_nil ?_⟩
    rintro (hreturned | ⟨-, hphase⟩)
    · cases hreturned
    · cases hphase
  accounts := by
    refine ⟨fun _ => ?_, fun own hphase => ?_, fun i before after hsplit => ?_⟩
    · exact Notifier.queued_subscribe_self.symm
    · cases hphase
    · simp at hsplit

theorem act (h : Keeps id v log) (x : VigilAction) : Keeps id (v.act x) (log ++ v.tells x) := by
  obtain ⟨hid, hsound, hturn⟩ := advances_act h.isSound x
  exact ⟨hid.trans h.id, hsound, h.judges.turn hid hturn, h.accounts.turn h.isSound h.judges hid hturn⟩

/-- What holds of a run goes on to hold. -/
theorem run (h : Keeps id v log) (actions : List VigilAction) :
    Keeps id (v.run actions) (log ++ v.log actions) := by
  induction actions generalizing v log with
  | nil =>
    rw [Vigil.log, List.append_nil]
    exact h
  | cons x rest ih =>
    rw [Vigil.log, ← List.append_assoc]
    exact ih (h.act x)

end Keeps

section Progress

variable {v : Vigil}

/-- Where a claim loop that took a commit takes the others, its wait cannot be given up. -/
theorem not_cancelled_of_draining (h : v.IsSound) {own : Bool} (hphase : v.phase = .draining own)
    (x : VigilAction) (i : Nat) : .cancelled i ∉ v.tells x := by
  have hturn := (advances_act h x).turn
  intro hcancelled
  generalize v.tells x = events at hturn hcancelled
  cases hturn with
  | cancelled phase => cases hphase.symm.trans phase
  | _ => simp at hcancelled

/-- Once a commit of its node was taken, the next step of the claim loop ends the wait. -/
theorem tells_turn_of_draining (h : v.IsSound) {own : Bool} (hphase : v.phase = .draining own)
    (heard : own = true ∨ ∃ e ∈ v.unread, e.owner = v.node.id) :
    v.tells .turn = [.drained v.waits v.unread, .returned v.waits] := by
  obtain ⟨id, deadline, -, hmove⟩ := move_of_draining h hphase
  -- this alone rules out that nothing happens
  have hphase' : (v.act .turn).phase ≠ v.phase := by
    rw [show (v.act .turn).phase = _ from congrArg (fun p => p.2.phase) hmove, hphase]
    simp only
    split <;> nofun
  have hturn := (advances_act h .turn).turn
  generalize v.tells .turn = events at hturn ⊢
  cases hturn with
  | quiet phase => exact absurd phase hphase'
  | arrived e phase => exact absurd phase hphase'
  | begun phase => cases hphase.symm.trans phase
  | received phase => cases hphase.symm.trans phase
  | drained phase foreign =>
    obtain rfl := WaitPhase.draining.inj (hphase.symm.trans phase)
    rcases heard with hown | ⟨e, he, howner⟩
    · cases hown
    · exact absurd howner (foreign e he)
  | returned phase heard phase' waits => rw [waits]
  | cancelled phase => cases hphase.symm.trans phase

/-- A claim loop that waits and was not told to stop takes the first commit that is unread. -/
theorem tells_turn_of_awaiting (h : v.IsSound) (hphase : v.phase = .awaiting)
    (hrunning : v.node.isCancelled = false) {e : TransactionEvent} {rest : List TransactionEvent}
    (hunread : v.unread = e :: rest) :
    v.tells .turn = [.received v.waits e] ∧ (v.act .turn).waits = v.waits ∧
      (v.act .turn).phase = .draining (e.owner == v.node.id) ∧ (v.act .turn).unread = rest := by
  obtain ⟨deadline, hloop⟩ := claimLoop_of_awaiting hphase
  have hlistens : v.isListening = true := by
    by_contra hdeaf
    have hnone : v.node.subscription = none := by simpa [isListening] using hdeaf
    simp [unread, Node.unread, hnone] at hunread
  obtain ⟨id, hid⟩ := isListening_iff.mp hlistens
  have hqueued : v.hub.notifier.queued id = e :: rest := (unread_eq hid).symm.trans hunread
  have hmove : v.move .turn = ({ v.hub with notifier := (v.hub.notifier.receive id).2 },
      v.node.withClaimLoop (.draining (e.owner == v.node.id) deadline)) := by
    simp [move, ClaimLoop.step?, hloop, ClaimLoop.awake?, hrunning, hid, Notifier.receive, hqueued]
  have hphase' : (v.act .turn).phase = .draining (e.owner == v.node.id) := congrArg (fun p => p.2.phase) hmove
  have hadvances := advances_act h .turn
  have hlistens' := hadvances.isSound.listens _ hphase'
  have hturn := hadvances.turn
  generalize v.tells .turn = events at hturn ⊢
  cases hturn with
  | quiet phase => cases (phase.symm.trans hphase').symm.trans hphase
  | arrived e phase => cases (phase.symm.trans hphase').symm.trans hphase
  | begun phase => cases hphase.symm.trans phase
  | received phase unread phase' waits leaves =>
    obtain ⟨rfl, rfl⟩ := List.cons.inj (hunread.symm.trans unread)
    exact ⟨by rw [waits], waits, hphase', (leaves hlistens').2⟩
  | drained phase => cases hphase.symm.trans phase
  | returned phase => cases hphase.symm.trans phase
  | cancelled phase phase' => cases phase'.symm.trans hphase'

theorem node_arrive (v : Vigil) (e : TransactionEvent) : (v.act (.arrive e)).node = v.node := by
  simp only [Vigil.act, move]
  split <;> rfl

/-- Commits that arrive are queued and change nothing else of a wait. -/
theorem arrive_all (h : v.IsSound) (hlistens : v.isListening = true) (es : List TransactionEvent) :
    v.log (es.map .arrive) = es.map .arrived ∧ (v.run (es.map .arrive)).IsSound ∧
      (v.run (es.map .arrive)).node = v.node ∧ (v.run (es.map .arrive)).waits = v.waits ∧
      (v.run (es.map .arrive)).unread = v.unread ++ es := by
  induction es generalizing v with
  | nil => exact ⟨rfl, h, rfl, rfl, (List.append_nil _).symm⟩
  | cons e rest ih =>
    have hnode := node_arrive v e
    have hlistens' : (v.act (.arrive e)).isListening = true := by rwa [isListening, hnode]
    have htells : v.tells (.arrive e) = [.arrived e] := if_pos hlistens
    obtain ⟨-, hsound, hturn⟩ := advances_act h (.arrive e)
    obtain ⟨hlog, hsound', hnode', hwaits, hunread⟩ := ih hsound hlistens'
    rw [htells] at hturn
    cases hturn with
    | arrived e phase waits leaves =>
      refine ⟨?_, hsound', hnode'.trans hnode, hwaits.trans waits, ?_⟩
      · rw [List.map_cons, Vigil.log, htells, hlog]
        rfl
      · rw [List.map_cons, Vigil.run, List.foldl_cons]
        refine hunread.trans ?_
        rw [(leaves hlistens').2, List.append_assoc]
        rfl

/-- A claim loop that waits while a commit of its node is unread ends the wait with its next two steps, also when
commits arrive between them. -/
theorem log_of_own (h : v.IsSound) (hphase : v.phase = .awaiting) (hrunning : v.node.isCancelled = false)
    {e : TransactionEvent} {rest es : List TransactionEvent} (hunread : v.unread = e :: rest)
    (hown : ∃ c ∈ e :: (rest ++ es), c.owner = v.node.id) :
    v.log (.turn :: (es.map .arrive ++ [.turn])) =
      .received v.waits e :: (es.map .arrived ++ [.drained v.waits (rest ++ es), .returned v.waits]) := by
  obtain ⟨htells, hwaits, hphase', hrest⟩ := tells_turn_of_awaiting h hphase hrunning hunread
  obtain ⟨hid, hsound, -⟩ := advances_act h .turn
  obtain ⟨hlog, hsound', hnode, hwaits', hunread'⟩ := arrive_all hsound (hsound.listens _ hphase') es
  have hdraining : ((v.act .turn).run (es.map .arrive)).phase = .draining (e.owner == v.node.id) :=
    (congrArg Node.phase hnode).trans hphase'
  rw [hrest] at hunread'
  have hlast := tells_turn_of_draining hsound' hdraining ?_
  · rw [Vigil.log, log_append, htells, hlog, Vigil.log, hlast, hunread', hwaits', hwaits]
    rfl
  · rw [hunread', hnode, hid]
    obtain ⟨c, hc, howner⟩ := hown
    rcases List.mem_cons.mp hc with rfl | hc
    · exact .inl (beq_iff_eq.mpr howner)
    · exact .inr ⟨c, hc, howner⟩

end Progress

/-- No commit of the node is lost on a wait, whatever comes between its steps and whenever it is given up. A wait
that returns has taken a commit of the node, and does so at once with the first batch in which there is one; all
that it leaves unread arrived later. A wait that has taken such a commit is not given up: it has returned, or
returns with the next step of the claim loop and cannot be given up before. And a claim loop that waits, and is not
told to stop, returns with its next two steps if there is such a commit by the second. -/
theorem own_commits_answered (h : Hub) (n : Node) (actions : List VigilAction) :
    let v := (opened h n).run actions
    let log := (opened h n).log actions
    (∀ i, .returned i ∈ log → TookOwn n.id i log ∧ .cancelled i ∉ log) ∧
    (∀ i, TookOwn n.id i log → .cancelled i ∉ log ∧
      (.returned i ∈ log ∨
        v.tells .turn = [.drained i v.unread, .returned i] ∧ ∀ x j, .cancelled j ∉ v.tells x)) ∧
    (∀ i before after, log = before ++ .returned i :: after →
      Returns n.id i before ∧ (v.isListening = true → arrivals after = taken after ++ v.unread)) ∧
    (v.isListening = true → arrivals log = taken log ++ v.unread) ∧
    ∀ e rest es, v.phase = .awaiting → v.node.isCancelled = false → v.unread = e :: rest →
      (∃ c ∈ e :: (rest ++ es), c.owner = n.id) →
      v.log (.turn :: (es.map .arrive ++ [.turn])) =
        .received v.waits e :: (es.map .arrived ++ [.drained v.waits (rest ++ es), .returned v.waits]) := by
  intro v log
  obtain ⟨hid, hsound, hjudges, haccounts⟩ : Keeps n.id v log := (Keeps.opened h n).run actions
  have hjudged := hjudges.judged
  rw [hid] at hjudged
  refine ⟨fun i hreturned => ?_, fun i htook => ?_, fun i before after hsplit => ?_, haccounts.balanced, ?_⟩
  · exact ⟨(hjudged i).mpr (.inl hreturned), hjudges.exclusive i hreturned⟩
  · rcases (hjudged i).mp htook with hreturned | ⟨rfl, hdraining⟩
    · exact ⟨hjudges.exclusive i hreturned, .inl hreturned⟩
    · refine ⟨(hjudges.undecided (by simp [hdraining])).2, .inr ⟨?_, ?_⟩⟩
      · exact tells_turn_of_draining hsound hdraining (.inl rfl)
      · exact not_cancelled_of_draining hsound hdraining
  · have hreturns := haccounts.returned i before after hsplit
    rw [hid] at hreturns
    refine ⟨hreturns, fun hlistens => ?_⟩
    have hbalanced := haccounts.balanced hlistens
    rw [hsplit, arrivals_append, taken_append, hreturns.1, List.append_assoc] at hbalanced
    simpa [brings, takes] using List.append_cancel_left hbalanced
  · intro e rest es hphase hrunning hunread hown
    rw [← hid] at hown
    exact log_of_own hsound hphase hrunning hunread hown

def ownCommit : TransactionEvent := ⟨.commit, [], ⟨"a"⟩⟩

def otherCommit : TransactionEvent := ⟨.commit, [], ⟨"b"⟩⟩

/-- A node before its first wait. -/
def idleVigil : Vigil := opened (.startingAt .epoch) (.unstarted ⟨"a"⟩ .standard .empty .shared false)

/-- The first wait takes a commit of another node and is given up; before the second another one arrives. -/
def twoWaits : List VigilAction :=
  [.begin_ 5, .arrive otherCommit, .turn, .turn, .giveUp, .begin_ 9, .arrive otherCommit]

/-- The second wait returns, as a commit of the node arrives between its steps behind that of the other node. -/
theorem own_commits_answered_twoWaits :
    idleVigil.log twoWaits = [.begun 1, .arrived otherCommit, .received 1 otherCommit, .drained 1 [],
      .cancelled 1, .begun 2, .arrived otherCommit] ∧
    (idleVigil.run twoWaits).phase = .awaiting ∧ (idleVigil.run twoWaits).node.isCancelled = false ∧
    (idleVigil.run twoWaits).unread = [otherCommit] ∧
    (∃ c ∈ otherCommit :: ([] ++ [ownCommit]), c.owner = ⟨"a"⟩) ∧
    (idleVigil.run twoWaits).log [.turn, .arrive ownCommit, .turn] =
      [.received 2 otherCommit, .arrived ownCommit, .drained 2 [ownCommit], .returned 2] := by
  have hphase : (idleVigil.run twoWaits).phase = .awaiting := by decide +kernel
  have hrunning : (idleVigil.run twoWaits).node.isCancelled = false := by decide +kernel
  have hunread : (idleVigil.run twoWaits).unread = [otherCommit] := by decide +kernel
  have hown : ∃ c ∈ otherCommit :: ([] ++ [ownCommit]), c.owner = ⟨"a"⟩ := by decide
  have hwaits : (idleVigil.run twoWaits).waits = 2 := by decide +kernel
  obtain ⟨-, -, -, -, hanswered⟩ := own_commits_answered (.startingAt .epoch)
    (.unstarted ⟨"a"⟩ .standard .empty .shared false) twoWaits
  have hlog := hanswered otherCommit [] [ownCommit] hphase hrunning hunread hown
  refine ⟨by decide +kernel, hphase, hrunning, hunread, hown, ?_⟩
  rw [← hwaits]
  exact hlog

end Vigil

end DurableQueue
