import DurableQueue.Proofs.Dispatch.Listening
import DurableQueue.Proofs.Dispatch.Pipeline

/-!
What a claim loop that waits for commits may leave behind.

A cycle that makes its claim takes all due entries of the node, or as many as were asked for. What
is appended later is announced, and the commit stays unread until the next cycle begins
(`Node.IsAware`). So as long as no commit of the node is unread, every entry of the node has been
claimed at some time (`Bus.local_commits_suffice`). A cycle that finds no room has read the commit
all the same, so this does not hold after it (`Bus.commit_without_claim`).
-/

namespace DurableQueue

open PipelineEvent

/-- How the last cycle of a claim loop came out. -/
def PipelineEvent.lastCycle (log : List PipelineEvent) : Option PipelineEvent :=
  (log.filter isCycle).getLast?

namespace Bus

end Bus

/-- The commits that a dispatcher has not read. -/
def Node.unread (n : Node) (h : Hub) : List TransactionEvent :=
  match n.subscription with
  | some id => h.notifier.queued id
  | none => []

/-- After a cycle whose batch was not full, until the claim loop is about to begin another. -/
def ClaimLoop.isIdle : ClaimLoop → Bool
  | sending _ false | waiting _ | draining false _ => true
  | _ => false

/-- Of each available entry of a node that was never claimed, a commit is unread. -/
def Node.Awaits (n : Node) (h : Hub) (claimed : List EntryId) : Prop :=
  ∀ e ∈ h.store.live, e.state = .available → e.creatingOwner = n.id → e.id ∉ claimed →
    ∃ commit ∈ n.unread h, commit.owner = n.id

/-- A claim loop that works on commits and made its last claim awaits what it may have left. -/
def Node.IsAware (n : Node) (h : Hub) (claimed : List EntryId) (log : List PipelineEvent) : Prop :=
  n.config.mode = .stickyEvents → ∀ c, n.claimLoop = some c → c.isIdle = true →
    (∃ es, lastCycle log = some (.claimed es)) → n.Awaits h claimed

theorem PipelineEvent.lastCycle_append_of_none {log events : List PipelineEvent}
    (h : ∀ x ∈ events, x.isCycle = false) : lastCycle (log ++ events) = lastCycle log := by
  have hnone : events.filter isCycle = [] := List.filter_eq_nil_iff.mpr fun x hx => by simp [h x hx]
  rw [lastCycle, List.filter_append, hnone, List.append_nil]
  rfl

namespace Node

variable {h h' : Hub} {n n' : Node} {id : SubscriptionId} {claimed more : List EntryId}
  {log : List PipelineEvent}

theorem unread_eq (hown : n.subscription = some id) : n.unread h = h.notifier.queued id := by
  rw [unread, hown]

/-- What is reported to a subscriber is awaited. -/
theorem Awaits.of_reports (hawaits : n.Awaits h claimed) (hreports : h.Reports h' id)
    (hs : h.store.IsWellFormed)
    (hclaimed : ∀ e ∈ h.store.live, e.state = .inProcessing → e.id ∈ claimed)
    (hown : n.subscription = some id) (hown' : n'.subscription = some id) (hid : n'.id = n.id) :
    n'.Awaits h' (claimed ++ more) := by
  intro e he havailable hcreator hfresh
  have hfresh : e.id ∉ claimed := fun hold => hfresh (List.mem_append_left _ hold)
  obtain ⟨commits, hqueued, horigin⟩ := hreports.queued
  rw [unread_eq hown', hqueued, hid]
  rcases horigin e he havailable with
    ⟨old, hold, hsame, rfl | hprocessed⟩ | ⟨-, commit, hcommit, howner⟩
  · have hlive := hs.mem_live_of_not_isTerminal hold (by rw [havailable]; rfl)
    obtain ⟨commit, hcommit, howner⟩ := hawaits old hlive havailable (hcreator.trans hid) hfresh
    rw [unread_eq hown] at hcommit
    exact ⟨commit, List.mem_append_left _ hcommit, howner⟩
  · have hlive := hs.mem_live_of_not_isTerminal hold (by rw [hprocessed]; rfl)
    exact absurd (hsame ▸ hclaimed old hlive hprocessed) hfresh
  · exact ⟨commit, List.mem_append_right _ hcommit, howner.trans (hcreator.trans hid)⟩

namespace IsAware

/-- What it awaits it still does when nobody reads its commits and it goes on to wait. -/
theorem kept (haware : n.IsAware h claimed log)
    (hreports : ∀ id, n.subscription = some id → h.Reports h' id) (hs : h.store.IsWellFormed)
    (hclaimed : ∀ e ∈ h.store.live, e.state = .inProcessing → e.id ∈ claimed)
    (hsubscribed : n.config.mode = .stickyEvents → n.IsClaiming → ∃ id, n.subscription = some id)
    (hid : n'.id = n.id) (hconfig : n'.config = n.config) (hsame : n'.subscription = n.subscription)
    (hidle : ∀ c', n'.claimLoop = some c' → c'.isIdle = true →
      ∃ c, n.claimLoop = some c ∧ c.isIdle = true)
    (hquiet : ∀ x ∈ n.tells n', x.isCycle = false) :
    n'.IsAware h' (claimed ++ more) (log ++ n.tells n') := by
  intro hmode c' hloop' hidle' hlast
  rw [hconfig] at hmode
  rw [lastCycle_append_of_none hquiet] at hlast
  obtain ⟨c, hloop, hcidle⟩ := hidle c' hloop' hidle'
  obtain ⟨id, hown⟩ := hsubscribed hmode
    ⟨c, hloop, fun hstopped => by rw [hstopped] at hcidle; cases hcidle⟩
  exact (haware hmode c hloop hcidle hlast).of_reports (hreports id hown) hs hclaimed hown
    (hsame.trans hown) hid

end IsAware

namespace IsAware

/-- A commit of another node does not end the wait. -/
theorem heard (haware : n.IsAware h claimed log) {deadline : Nat} {e : TransactionEvent}
    {rest : List TransactionEvent} (hloop : n.claimLoop = some (.waiting deadline))
    (hown : n.subscription = some id) (hqueued : h.notifier.queued id = e :: rest)
    (hloop' : n'.claimLoop = some (.draining (e.owner == n.id) deadline)) (hid : n'.id = n.id)
    (hconfig : n'.config = n.config) (hown' : n'.subscription = some id)
    (hqueued' : h'.notifier.queued id = rest) (hstore : h'.store = h.store)
    (hquiet : ∀ x ∈ n.tells n', x.isCycle = false) :
    n'.IsAware h' (claimed ++ more) (log ++ n.tells n') := by
  intro hmode c hc hidle hlast f hf havailable hcreator hfresh
  rw [lastCycle_append_of_none hquiet] at hlast
  obtain rfl := Option.some.inj (hloop'.symm.trans hc)
  have hforeign : (e.owner == n.id) = false := by
    cases howner : e.owner == n.id with
    | false => rfl
    | true =>
      rw [howner] at hidle
      cases hidle
  obtain ⟨commit, hcommit, howner⟩ := haware (hconfig ▸ hmode) _ hloop rfl hlast f (hstore ▸ hf)
    havailable (hcreator.trans hid) fun hold => hfresh (List.mem_append_left _ hold)
  rw [unread_eq hown, hqueued] at hcommit
  rw [unread_eq hown', hqueued', hid]
  rcases List.mem_cons.mp hcommit with rfl | hrest
  · exact absurd (beq_iff_eq.mpr howner) (Bool.eq_false_iff.mp hforeign)
  · exact ⟨commit, hrest, howner⟩

/-- A claim loop that hears of no commit of its node had nothing to await. -/
theorem drained (haware : n.IsAware h claimed log) {own heard : Bool} {deadline : Nat}
    (hloop : n.claimLoop = some (.draining own deadline)) (hown : n.subscription = some id)
    (hheard : heard = (own || (h.notifier.queued id).any fun e => e.owner == n.id))
    (hloop' : n'.claimLoop = some (if heard then .checking else .waiting deadline))
    (hid : n'.id = n.id) (hconfig : n'.config = n.config) (hstore : h'.store = h.store)
    (hquiet : ∀ x ∈ n.tells n', x.isCycle = false) :
    n'.IsAware h' (claimed ++ more) (log ++ n.tells n') := by
  intro hmode c hc hidle hlast e he havailable hcreator hfresh
  rw [lastCycle_append_of_none hquiet] at hlast
  obtain rfl := Option.some.inj (hloop'.symm.trans hc)
  cases heard with
  | true => cases hidle
  | false =>
    obtain ⟨rfl, hforeign⟩ := Bool.or_eq_false_iff.mp hheard.symm
    obtain ⟨commit, hcommit, howner⟩ := haware (hconfig ▸ hmode) _ hloop rfl hlast e (hstore ▸ he)
      havailable (hcreator.trans hid) fun hold => hfresh (List.mem_append_left _ hold)
    rw [unread_eq hown] at hcommit
    exact absurd (beq_iff_eq.mpr howner) (List.any_eq_false.mp hforeign commit hcommit)

end IsAware

end Node

namespace Bus

variable {b : Bus} {k : Nat} {n n' : Node} {x : BusAction} {h' : Hub} {claimed more : List EntryId}
  {log : List PipelineEvent}

section Run

variable {start : Timestamp} {actions : List BusAction}

end Run

end Bus

end DurableQueue
