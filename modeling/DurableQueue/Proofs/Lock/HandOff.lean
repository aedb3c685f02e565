import DurableQueue.Proofs.Lock.History

/-!
No hand-off of a lock is lost.

In every run a contender that waits, connected, with no wake-up on its way has its node in the tree,
and so is the node on which it last put a watch (`handOff_not_lost`). Once that node goes, or the
session of the contender comes back, a wake-up is on its way. The proof follows one contender
through a run: it is parked because it has just set a watch (`parked_act`), and whatever happens
next either keeps it queued behind that watch or alerts it (`queued_act`).
-/

namespace DurableQueue.Locker

open Acquisition

/-- Whether the last thing that a call did was to put a watch on a predecessor: since then it has
been waiting for a signal. -/
def WatchedLast (actions : List LockAction) (i : Nat) (node predecessor : String) : Prop :=
  ∃ before after a, actions = before ++ .task (.call i) :: after ∧
    (run before).acquisition? i = some a ∧ a.stage = .watching node predecessor ∧
    ∀ since, since <+: after →
      ∃ b, (run (before ++ .task (.call i) :: since)).acquisition? i = some b ∧ b.stage = .awaiting

variable {l : Locker} {i : Nat} {x : LockAction} {a a' : Acquisition} {node predecessor : String}
  {actions : List LockAction}

/-- Who is queued and goes on waiting stays queued, whatever happens, or is alerted. -/
theorem queued_act (h : l.IsSound) (ha : l.acquisition? i = some a) (hstage : a.stage = .awaiting)
    (hq : a.IsQueued l.coordination node predecessor) (ha' : (l.act x).acquisition? i = some a')
    (hstage' : a'.stage = .awaiting) (halert : ¬ a'.IsAlerted (l.act x).coordination) :
    a'.IsQueued (l.act x).coordination node predecessor := by
  obtain ⟨ch, hch, step⟩ := contenderStep_act h ha'
  rw [hch] at halert ⊢
  cases step with
  | begun begins =>
    rw [begins] at hstage'
    cases hstage'
  | kept before removes =>
    rw [ha] at before
    cases before
    exact hq.after (h.contender ha).toIsRooted h.service removes halert
  | moved before action move =>
    rw [ha] at before
    cases before
    obtain ⟨rfl, rest, rfl⟩ := move.eq_of_awaiting hstage hstage'
    exact hq
  | heardEvent before hears =>
    rw [ha] at before
    cases before
    exact hq.hearEvent hears
  | heardWatch before hears => exact absurd (isAlerted_of_hearWatch hears) halert

/-- Who is parked was parked before, or has just set a watch. -/
theorem parked_act (h : l.IsSound) (ha' : (l.act x).acquisition? i = some a')
    (hp : a'.IsParked (l.act x).coordination) :
    (∃ a, l.acquisition? i = some a ∧ a.IsParked l.coordination) ∨
      (x = .task (.call i) ∧ ∃ a node predecessor, l.acquisition? i = some a ∧
        a.stage = .watching node predecessor ∧
        a'.IsQueued (l.act x).coordination node predecessor) := by
  obtain ⟨ch, hch, step⟩ := contenderStep_act h ha'
  rw [hch] at hp ⊢
  cases step with
  | begun begins =>
    obtain ⟨hstage, -⟩ := hp
    rw [begins] at hstage
    cases hstage
  | kept before removes =>
    exact .inl ⟨a', before, hp.of_after (h.contender before).toIsRooted h.service⟩
  | moved before action move =>
    rcases move.parked_cases (h.contender before) hp with ⟨-, hparked, -⟩ | ⟨node, p, hstage, hq⟩
    · exact .inl ⟨_, before, hparked⟩
    · rcases action with hx | hwithdrawing
      · exact .inr ⟨hx, _, node, p, before, hstage, hq⟩
      · cases hp.1.symm.trans hwithdrawing
  | heardEvent before hears => exact .inl ⟨_, before, hp.of_hearEvent hears⟩
  | heardWatch before hears => exact absurd hp (not_isParked_of_hearWatch hears)

theorem WatchedLast.concat (hw : WatchedLast actions i node predecessor)
    (ha : (run (actions ++ [x])).acquisition? i = some a) (hstage : a.stage = .awaiting) :
    WatchedLast (actions ++ [x]) i node predecessor := by
  obtain ⟨before, after, b, rfl, hb, hwatching, hsince⟩ := hw
  refine ⟨before, after ++ [x], b, by simp, hb, hwatching, ?_⟩
  intro since hprefix
  rcases List.prefix_concat_iff.mp hprefix with rfl | hprefix
  · refine ⟨a, ?_, hstage⟩
    rw [← ha]
    simp
  · exact hsince since hprefix

/-- Who is parked is queued behind the node on which it last put a watch. -/
theorem queued_of_parked (actions : List LockAction) {i : Nat} {a : Acquisition}
    (ha : (run actions).acquisition? i = some a) (hp : a.IsParked (run actions).coordination) :
    ∃ node predecessor, WatchedLast actions i node predecessor ∧
      a.IsQueued (run actions).coordination node predecessor := by
  induction actions using List.reverseRecOn generalizing a with
  | nil => cases ha
  | append_singleton actions x ih =>
    have hsound := isSound_run actions
    have ha' := ha
    rw [run_concat] at ha hp ⊢
    rcases parked_act hsound ha hp with ⟨b, hb, hparked⟩ | ⟨rfl, b, node, p, hb, hwatching, hq⟩
    · obtain ⟨node, p, hw, hq⟩ := ih hb hparked
      exact ⟨node, p, hw.concat ha' hp.1, queued_act hsound hb hparked.1 hq ha hp.1 hp.2.2⟩
    · refine ⟨node, p, ⟨actions, [], b, rfl, hb, hwatching, ?_⟩, hq⟩
      intro since hprefix
      rw [List.prefix_nil.mp hprefix]
      exact ⟨a, ha', hp.1⟩

/-- A change of its session other than a loss of the connection alerts whoever was rooted in it. -/
theorem isAlerted_undergo (h : l.IsSound) {client : Nat} {change : SessionEvent}
    (hne : change ≠ .disconnected)
    (hsession : l.coordination.sessionOf client = l.coordination.sessionOf a.client)
    (ha : l.acquisition? i = some a) :
    (l.act (.undergo client change)).acquisition? i = some a ∧
      a.IsAlerted (l.act (.undergo client change)).coordination := by
  refine ⟨ha, ?_⟩
  have halert := (h.contender ha).toIsRooted.isAlerted_of_change h.service hne
  rw [← hsession] at halert
  exact halert

/-- A contender that waits, connected, with no wake-up on its way has its node in the tree, and so
is the node on which it last put a watch, which has not fired. If that node goes or its session
comes back, then a wake-up is on its way to it. -/
theorem handOff_not_lost {actions : List LockAction} {i : Nat} {a : Acquisition}
    (ha : (run actions).acquisition? i = some a) (hp : a.IsParked (run actions).coordination) :
    ∃ node predecessor, WatchedLast actions i node predecessor ∧ a.state = .waiting node ∧
      (run actions).coordination.coordinator.hasNode node = true ∧
      (run actions).coordination.coordinator.hasNode predecessor = true ∧
      (∃ w ∈ a.watches,
        (run actions).coordination.coordinator.watches[w]? = some ⟨predecessor, false⟩) ∧
      (∀ x a', (run (actions ++ [x])).acquisition? i = some a' → a'.stage = .awaiting →
        (run (actions ++ [x])).coordination.coordinator.hasNode predecessor = false →
        a'.IsAlerted (run (actions ++ [x])).coordination) ∧
      ∀ client change, change ≠ .disconnected →
        (run actions).coordination.sessionOf client =
          (run actions).coordination.sessionOf a.client →
        (run (actions ++ [.undergo client change])).acquisition? i = some a ∧
          a.IsAlerted (run (actions ++ [.undergo client change])).coordination := by
  have hsound := isSound_run actions
  obtain ⟨node, predecessor, hw, hq⟩ := queued_of_parked actions ha hp
  refine ⟨node, predecessor, hw, hq.1, hq.2.1, hq.hasNode hsound.service, hq.2.2, ?_, ?_⟩
  · intro x a' ha' hstage hgone
    rw [run_concat] at ha' hgone ⊢
    refine Classical.byContradiction fun halert => ?_
    have hq' := queued_act hsound ha hp.1 hq ha' hstage halert
    rw [hq'.hasNode (isSound_act hsound x).service] at hgone
    cases hgone
  · intro client change hne hsession
    rw [run_concat]
    exact isAlerted_undergo hsound hne hsession ha

/-- Two sessions ask for one lock. The first gets it, and the second comes to wait. -/
def queuedRun : List LockAction :=
  [.openSession, .openSession, .start ⟨0, "jobs", "nightly", .ofSeconds 60⟩,
    .start ⟨1, "jobs", "nightly", .ofSeconds 60⟩] ++
    List.replicate 4 (.task (.call 0)) ++ List.replicate 5 (.task (.call 1))

/-- The second of two contenders, behind the first. -/
def secondContender : Acquisition where
  client := 1
  directory := "/jobs/nightly"
  deadline := 60000
  state := .waiting "/jobs/nightly/lock-0000000001"
  stale := none
  signals := []
  seenEvents := 0
  watches := [0]
  stage := .awaiting

theorem acquisition?_queuedRun : (run queuedRun).acquisition? 1 = some secondContender := by
  rfl

theorem isParked_queuedRun : secondContender.IsParked (run queuedRun).coordination := by
  have hsession : (run queuedRun).coordination.session? secondContender.client =
      some ⟨2, true, []⟩ := by rfl
  refine ⟨rfl, ⟨⟨2, true, []⟩, hsession, rfl⟩, ?_⟩
  rintro (⟨signal, hmem, -⟩ | ⟨w, hw, hfired⟩ | ⟨s, hs, r, hr, -⟩)
  · cases hmem
  · have hunfired : (run queuedRun).coordination.coordinator.hasFired 0 = false := by decide +kernel
    rw [List.mem_singleton.mp hw, hunfired] at hfired
    cases hfired
  · rw [hsession] at hs
    cases hs
    cases hr

theorem handOff_not_lost_queuedRun :
    (run queuedRun).acquisition? 1 = some secondContender ∧
      secondContender.IsParked (run queuedRun).coordination ∧
      ∃ node predecessor, WatchedLast queuedRun 1 node predecessor ∧
        (run queuedRun).coordination.coordinator.hasNode node = true ∧
        (run queuedRun).coordination.coordinator.hasNode predecessor = true := by
  obtain ⟨node, predecessor, hw, -, hnode, hpredecessor, -⟩ :=
    handOff_not_lost acquisition?_queuedRun isParked_queuedRun
  exact ⟨acquisition?_queuedRun, isParked_queuedRun, node, predecessor, hw, hnode, hpredecessor⟩

end DurableQueue.Locker
