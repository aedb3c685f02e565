import DurableQueue.Proofs.Dispatch.BusChange
import DurableQueue.Proofs.Notifier.Queues
import Mathlib.Data.List.Induction

/-!
What dispatchers hear of appends.

A dispatcher that works on commits has a subscription of its own, which it alone reads and closes
(`Bus.IsTuned`). Whatever it does not do to the subscription itself leaves in it what is queued, and
queues the commit of each entry that is appended (`Hub.Reports`).
-/

namespace DurableQueue

namespace Notifier

variable {n : Notifier} {id id' : SubscriptionId}

/-- A subscription is sent the commits that are announced. -/
structure Feeds (n : Notifier) (id : SubscriptionId) : Prop where
  isOpen : n.isOpen id = true
  listed : id ∈ n.subscribers

namespace Feeds

theorem lt_length (h : n.Feeds id) : id < n.subscriptions.length := lt_of_isOpen h.isOpen

theorem changeSubscription (h : n.Feeds id) (id' : SubscriptionId) {f : Subscription → Subscription}
    (hf : ∀ s, (f s).isOpen = s.isOpen) : (n.changeSubscription id' f).Feeds id :=
  ⟨(isOpen_changeSubscription hf id' id).trans h.isOpen, h.listed⟩

theorem unsubscribe (h : n.Feeds id) (hother : id' ≠ id) : (n.unsubscribe id').Feeds id :=
  ⟨isOpen_unsubscribe.mpr ⟨hother, h.isOpen⟩, h.listed⟩

theorem subscribe (h : n.Feeds id) : n.subscribe.2.Feeds id :=
  ⟨isOpen_subscribe.mpr (.inl h.isOpen),
    List.mem_append_left _ (List.mem_filter.mpr ⟨h.listed, h.isOpen⟩)⟩

end Feeds

theorem feeds_subscribe (n : Notifier) : n.subscribe.2.Feeds n.subscribe.1 :=
  ⟨isOpen_subscribe.mpr (.inr rfl), List.mem_append_right _ (List.mem_singleton_self _)⟩

theorem isOpen_send_queue (e : TransactionEvent) (s : Subscription) :
    (if s.isOpen then { s with queue := s.queue ++ [e] } else s).isOpen = s.isOpen := by
  split <;> rfl

/-- Sending a commit to subscribers leaves them subscribers, and queues it where they are open. -/
theorem foldl_send (n : Notifier) (e : TransactionEvent) (ids : List SubscriptionId) :
    let n' := ids.foldl (fun n id => n.send id e) n
    n'.commitCallbacks = n.commitCallbacks ∧ n'.subscribers = n.subscribers ∧
      ∀ id, n'.isOpen id = n.isOpen id ∧
        (n.isOpen id = true → n'.queued id = n.queued id ++ List.replicate (ids.count id) e) := by
  induction ids generalizing n with
  | nil => exact ⟨rfl, rfl, fun id => ⟨rfl, fun _ => (List.append_nil _).symm⟩⟩
  | cons i rest ih =>
    obtain ⟨hcallbacks, hsubscribers, hids⟩ := ih (n.send i e)
    refine ⟨hcallbacks, hsubscribers, fun id => ?_⟩
    obtain ⟨hopen, hqueued⟩ := hids id
    have hsend : (n.send i e).isOpen id = n.isOpen id :=
      isOpen_changeSubscription (isOpen_send_queue e) i id
    refine ⟨hopen.trans hsend, fun hid => ?_⟩
    rw [List.foldl_cons, hqueued (hsend.trans hid)]
    by_cases heq : i = id
    · subst heq
      rw [send, queued_changeSubscription hid, List.count_cons_self, List.replicate_succ]
      simp
    · rw [send, queued_changeSubscription_of_ne heq, List.count_cons_of_ne heq]

/-- While nothing is to be called at a commit, announcing one only sends it. -/
theorem fire_appended (hquiet : n.commitCallbacks = []) (e : Entry) :
    (n.fire (.appended e)).2 = n.subscribers.foldl (fun n id => n.send id (.appended e)) n := by
  simp only [fire, TransactionEvent.appended, callbacks, hquiet, List.foldl_nil]

/-- An operation announces nothing, or an append that is only sent. -/
theorem foldl_fire_announces (hquiet : n.commitCallbacks = []) (op : StoreOp)
    (a : Except StoreError StoreAnswer) :
    (op.announces a = [] ∧ (op.announces a).foldl (fun n e => (n.fire e).2) n = n) ∨
      ∃ e, op.announces a = [.appended e] ∧ (op.announces a).foldl (fun n e => (n.fire e).2) n =
        n.subscribers.foldl (fun n id => n.send id (.appended e)) n := by
  unfold StoreOp.announces
  split
  · exact .inr ⟨_, rfl, fire_appended hquiet _⟩
  · exact .inl ⟨rfl, rfl⟩

end Notifier

/-- What a subscriber that is fed learns while a hub changes: what was queued stays, and the commit
of each entry that is now available is queued, unless the entry was stored before as it is, or was
in processing. -/
structure Hub.Reports (h h' : Hub) (id : SubscriptionId) : Prop where
  feeds : h'.notifier.Feeds id
  queued : ∃ more, h'.notifier.queued id = h.notifier.queued id ++ more ∧
    ∀ e ∈ h'.store.live, e.state = .available →
      (∃ old ∈ h.store.stored, old.id = e.id ∧ (old = e ∨ old.state = .inProcessing)) ∨
        e.nextAvailableTime = h.time ∧ ∃ commit ∈ more, commit.owner = e.creatingOwner

/-- An available entry was available before, or was being processed, or was appended just now. -/
theorem Store.origin_of_effect {s s' : Store} {op : StoreOp} {now : Timestamp}
    {a : Except StoreError StoreAnswer} (hs : s.IsWellFormed) (heffect : Effect now s op a s')
    {e : Entry} (he : e ∈ s'.live) (havailable : e.state = .available) :
    (∃ old ∈ s.stored, old.id = e.id ∧ (old = e ∨ old.state = .inProcessing)) ∨
      op.announces a = [.appended e] ∧ e.nextAvailableTime = now := by
  have hstored : e ∈ s'.stored := List.mem_append_left _ he
  rcases stored_of_effect hs heffect with ⟨f, hperm, hfate⟩ | ⟨new, rfl, rfl, hperm⟩
  · obtain ⟨old, hold, rfl⟩ := List.mem_map.mp (hperm.mem_iff.mp hstored)
    refine .inl ⟨old, hold, (hfate old hold).evolves.id.symm, ?_⟩
    have hfate := hfate old hold
    generalize f old = new at hfate havailable
    cases hfate with
    | kept unclaimed untaken => exact .inl rfl
    | claimed hop ha wanted listed => cases havailable
    | resolved hop ha hid same move => exact .inr (isSameClaim_iff.mp same).1
    | reaped hop ha hc stale listed only => exact .inr (Entry.isStaleClaim_iff.mp stale).1
    | released hop ha held listed only => exact .inr (Entry.isHeldBy_iff.mp held).1
  · rcases List.mem_cons.mp (hperm.mem_iff.mp hstored) with rfl | hold
    · exact .inr ⟨rfl, rfl⟩
    · exact .inl ⟨e, hold, rfl, .inl rfl⟩

namespace Hub

variable {h h' : Hub} {id : SubscriptionId}

namespace Reports

/-- What leaves the store alone and the subscription as it is reports nothing. -/
theorem of_quiet (hfeeds : h'.notifier.Feeds id)
    (hqueued : h'.notifier.queued id = h.notifier.queued id) (hstore : h'.store = h.store) :
    h.Reports h' id where
  feeds := hfeeds
  queued := by
    refine ⟨[], by rw [hqueued, List.append_nil], fun e he _ => .inl ⟨e, ?_, rfl, .inl rfl⟩⟩
    exact List.mem_append_left _ (hstore ▸ he)

theorem of_serves (hquiet : h.notifier.commitCallbacks = []) (hfeeds : h.notifier.Feeds id)
    (hs : h.store.IsWellFormed) (hserves : h.Serves h') : h.Reports h' id := by
  cases hserves with
  | rests journal breakdowns => exact .of_quiet hfeeds rfl rfl
  | operates op journal breakdowns =>
    rw [operate_eq]
    have heffect := Store.effect_apply h.store op h.time
    generalize h.store.apply op h.time = answered at heffect
    have horigin {e : Entry} := Store.origin_of_effect (e := e) hs heffect
    rcases Notifier.foldl_fire_announces hquiet op answered.1 with
      ⟨hannounces, hfire⟩ | ⟨e, hannounces, hfire⟩
    · rw [hfire]
      refine ⟨hfeeds, [], (List.append_nil _).symm, fun e he havailable => .inl ?_⟩
      rcases horigin he havailable with hold | ⟨hnew, -⟩
      · exact hold
      · cases hannounces.symm.trans hnew
    · obtain ⟨-, hsubscribers, hids⟩ :=
        Notifier.foldl_send h.notifier (.appended e) h.notifier.subscribers
      rw [hfire]
      refine ⟨⟨(hids id).1.trans hfeeds.isOpen, hsubscribers.symm ▸ hfeeds.listed⟩, _,
        (hids id).2 hfeeds.isOpen, fun e' he' havailable => ?_⟩
      rcases horigin he' havailable with hold | ⟨hnew, hdue⟩
      · exact .inl hold
      · have hsame : TransactionEvent.appended e = .appended e' :=
          List.head_eq_of_cons_eq (hannounces.symm.trans hnew)
        refine .inr ⟨hdue, .appended e, ?_, congrArg TransactionEvent.owner hsame⟩
        exact List.mem_replicate.mpr ⟨(List.count_pos_iff.mpr hfeeds.listed).ne', rfl⟩

end Reports

/-- An operation on the store calls nothing and closes nothing. -/
theorem Serves.keeps (hquiet : h.notifier.commitCallbacks = []) (hserves : h.Serves h') :
    h'.notifier.commitCallbacks = [] := by
  cases hserves with
  | rests journal breakdowns => exact hquiet
  | operates op journal breakdowns =>
    rw [operate_eq]
    rcases Notifier.foldl_fire_announces hquiet op (h.store.apply op h.time).1 with
      ⟨-, hfire⟩ | ⟨e, -, hfire⟩
    · rw [hfire]
      exact hquiet
    · rw [hfire]
      exact (Notifier.foldl_send h.notifier (.appended e) h.notifier.subscribers).1.trans hquiet

end Hub

/-- What a step of a dispatcher makes of the hub: it works on the store, reads its subscription, or
closes it. -/
inductive Node.Touches (h : Hub) (n n' : Node) : Hub → Prop where
  | served {h' : Hub} (serves : h.Serves h') (same : n'.subscription = n.subscription) :
    Touches h n n' h'
  | read {id : SubscriptionId} {f : Subscription → Subscription} (own : n.subscription = some id)
    (same : n'.subscription = n.subscription) (keeps : ∀ s, (f s).isOpen = s.isOpen) :
    Touches h n n' { h with notifier := h.notifier.changeSubscription id f }
  | closed {breakdowns : Breakdowns} (unsubscribed : n'.subscription = none)
    (stopped : n'.claimLoop = some .stopped) :
    Touches h n n' { (ClaimLoop.stop h n).1 with breakdowns }

theorem Node.Step.touches {h h' : Hub} {n n' : Node} (hstep : n.Step h h' n') :
    n.Touches h n' h' := by
  cases hstep with
  | aside serves | worked _ _ serves | finished _ _ serves => exact .served serves rfl
  | claimed loop claim => exact .served (.of_claim claim) rfl
  | missed loop claim => exact .served (.of_claim claim) rfl
  | heard loop subscription queued => exact .read subscription rfl fun _ => rfl
  | drained loop subscription hears => exact .read subscription rfl fun _ => rfl
  | stopped running ends => exact .closed rfl rfl
  | _ => exact .served (.refl h) rfl

namespace Node

variable {h h' : Hub} {n n' : Node} {id : SubscriptionId}

theorem quiet_stop (h : Hub) (n : Node) :
    (ClaimLoop.stop h n).1.notifier.commitCallbacks = h.notifier.commitCallbacks := by
  unfold ClaimLoop.stop
  cases n.subscription <;> rfl

theorem Touches.quiet (htouches : n.Touches h n' h') (hquiet : h.notifier.commitCallbacks = []) :
    h'.notifier.commitCallbacks = [] := by
  cases htouches with
  | served serves same => exact serves.keeps hquiet
  | read own same keeps => exact hquiet
  | closed unsubscribed stopped => exact (quiet_stop h n).trans hquiet

/-- Nobody else reads or closes a subscription. -/
theorem Touches.reports (htouches : n.Touches h n' h') (hquiet : h.notifier.commitCallbacks = [])
    (hs : h.store.IsWellFormed) (hfeeds : h.notifier.Feeds id) (hother : n.subscription ≠ some id) :
    h.Reports h' id := by
  cases htouches with
  | served serves same => exact .of_serves hquiet hfeeds hs serves
  | @read id' f own same keeps =>
    have hne : id' ≠ id := fun heq => hother (heq ▸ own)
    exact .of_quiet (hfeeds.changeSubscription id' keeps)
      (Notifier.queued_changeSubscription_of_ne hne) rfl
  | @closed breakdowns unsubscribed stopped =>
    unfold ClaimLoop.stop
    cases hown : n.subscription with
    | none => exact .of_quiet hfeeds rfl rfl
    | some id' =>
      have hne : id' ≠ id := fun heq => hother (heq ▸ hown)
      exact .of_quiet (hfeeds.unsubscribe hne) (Notifier.queued_changeSubscription_of_ne hne) rfl

/-- What a dispatcher keeps as its subscription goes on to be fed. -/
theorem Touches.feeds (htouches : n.Touches h n' h') (hquiet : h.notifier.commitCallbacks = [])
    (hs : h.store.IsWellFormed) (hfeeds : ∀ id, n.subscription = some id → h.notifier.Feeds id)
    (hown : n'.subscription = some id) : n.subscription = some id ∧ h'.notifier.Feeds id := by
  cases htouches with
  | served serves same =>
    have hold := same.symm.trans hown
    exact ⟨hold, (Hub.Reports.of_serves hquiet (hfeeds id hold) hs serves).feeds⟩
  | read own same keeps =>
    have hold := same.symm.trans hown
    exact ⟨hold, (hfeeds id hold).changeSubscription _ keeps⟩
  | closed unsubscribed stopped =>
    rw [unsubscribed] at hown
    cases hown

/-- The claim loop goes on. -/
def IsClaiming (n : Node) : Prop := ∃ c, n.claimLoop = some c ∧ c ≠ .stopped

/-- A step sets no claim loop going. -/
theorem Step.isClaiming (hstep : n.Step h h' n') (hn' : n'.IsClaiming) : n.IsClaiming := by
  cases hstep with
  | aside | taken | worked | finished | retired | cut => exact hn'
  | stopped running ends =>
    obtain ⟨c, hc, hrunning⟩ := hn'
    exact absurd (Option.some.inj hc).symm hrunning
  | checked loop | skipped loop | claimed loop | missed loop | sent loop | yielded loop | resumed loop
  | parked loop | woken loop | heard loop | drained loop | deafened loop => exact ⟨_, loop, nofun⟩

end Node

namespace Bus

/-- Each dispatcher that works on commits has a subscription of its own, which is fed. -/
structure IsTuned (b : Bus) : Prop where
  quiet : b.hub.notifier.commitCallbacks = []
  fed : ∀ {k : Nat} {n : Node} {id : SubscriptionId}, b.nodes[k]? = some n →
    n.subscription = some id → b.hub.notifier.Feeds id
  apart : ∀ {i j : Nat} {m n : Node} {id : SubscriptionId}, b.nodes[i]? = some m →
    b.nodes[j]? = some n → m.subscription = some id → n.subscription = some id → i = j
  subscribed : ∀ {k : Nat} {n : Node}, b.nodes[k]? = some n → n.config.mode = .stickyEvents →
    n.IsClaiming → ∃ id, n.subscription = some id

variable {b : Bus} {k : Nat} {n n' : Node} {x : BusAction} {h' : Hub} {id : SubscriptionId}

/-- What happens elsewhere reports to a dispatcher. -/
theorem Elsewhere.reports (helsewhere : b.Elsewhere k h') (hb : b.IsTuned)
    (hs : b.hub.store.IsWellFormed) (hn : b.nodes[k]? = some n) (hown : n.subscription = some id) :
    b.hub.Reports h' id := by
  have hfeeds := hb.fed hn hown
  cases helsewhere with
  | moved other node step =>
    exact step.touches.reports hb.quiet hs hfeeds fun hsame => other (hb.apart node hn hsame hown)
  | begun other node begins =>
    cases begins with
    | subscribed unstarted mode skips =>
      exact .of_quiet hfeeds.subscribe (Notifier.queued_subscribe hfeeds.lt_length.ne) rfl
    | _ => exact .of_quiet hfeeds rfl rfl
  | served serves => exact .of_serves hb.quiet hfeeds hs serves
  | timed start now => exact .of_quiet hfeeds rfl rfl

/-- A subscription that a dispatcher has after an action is an old one, or it was opened when the
dispatcher was started. Either way it is fed. -/
theorem At.feeds (hat : b.At k x n h' n') (hb : b.IsTuned) (hs : b.hub.store.IsWellFormed)
    (hn : b.nodes[k]? = some n) (hown : n'.subscription = some id) :
    (n.subscription = some id ∨ x = .start k ∧ id = b.hub.notifier.subscriptions.length) ∧
      h'.notifier.Feeds id := by
  cases hat with
  | step step =>
    obtain ⟨hold, hfeeds⟩ := step.touches.feeds hb.quiet hs (fun _ => hb.fed hn) hown
    exact ⟨.inl hold, hfeeds⟩
  | begins asked begins =>
    cases begins with
    | refused => exact ⟨.inl hown, hb.fed hn hown⟩
    | declared unstarted => exact ⟨.inl hown, hb.fed hn hown⟩
    | started unstarted mode skips => cases hown
    | subscribed unstarted mode skips =>
      obtain rfl := Option.some.inj hown
      exact ⟨.inr ⟨asked, rfl⟩, Notifier.feeds_subscribe _⟩
  | elsewhere elsewhere => exact ⟨.inl hown, (elsewhere.reports hb hs hn hown).feeds⟩

theorem At.subscribed (hat : b.At k x n h' n') (hb : b.IsTuned) (hn : b.nodes[k]? = some n)
    (hmode : n'.config.mode = .stickyEvents) (hclaiming : n'.IsClaiming) :
    ∃ id, n'.subscription = some id := by
  cases hat with
  | step step =>
    obtain ⟨id, hid⟩ := hb.subscribed hn (step.config_eq ▸ hmode) (step.isClaiming hclaiming)
    cases step.touches with
    | served serves same => exact ⟨id, same.trans hid⟩
    | read own same keeps => exact ⟨id, same.trans hid⟩
    | closed unsubscribed stopped =>
      obtain ⟨c, hc, hrunning⟩ := hclaiming
      exact absurd (Option.some.inj (stopped.symm.trans hc)).symm hrunning
  | begins asked begins =>
    cases begins with
    | refused => exact hb.subscribed hn hmode hclaiming
    | declared unstarted => exact hb.subscribed (n := n) hn hmode hclaiming
    | started unstarted mode skips => exact absurd hmode mode
    | subscribed unstarted mode skips => exact ⟨_, rfl⟩
  | elsewhere elsewhere => exact hb.subscribed hn hmode hclaiming

theorem Change.quiet {b' : Bus} (hchange : b.Change x b')
    (hquiet : b.hub.notifier.commitCallbacks = []) : b'.hub.notifier.commitCallbacks = [] := by
  cases hchange with
  | moved node step nodes => exact step.touches.quiet hquiet
  | begun asked node begins nodes =>
    generalize b'.hub = h' at begins
    cases begins <;> exact hquiet
  | served serves nodes => exact serves.keeps hquiet
  | timed start now asked hub nodes => rw [hub]; exact hquiet
  | added id config registry clock isAttached asked hub nodes => rw [hub]; exact hquiet

/-- A dispatcher after an action is one from before it, or has done nothing yet. -/
theorem Change.of_node {b' : Bus} (hchange : b.Change x b') (hn' : b'.nodes[k]? = some n') :
    (∃ n, b.nodes[k]? = some n ∧ b.At k x n b'.hub n') ∨
      n'.subscription = none ∧ n'.claimLoop = none := by
  cases hk : b.nodes[k]? with
  | none =>
    obtain ⟨id, config, registry, clock, isAttached, -, rfl⟩ := hchange.new_node hk hn'
    exact .inr ⟨rfl, rfl⟩
  | some n =>
    obtain ⟨n₁, hn₁, hat⟩ := hchange.at_node hk
    obtain rfl : n₁ = n' := Option.some.inj (hn₁.symm.trans hn')
    exact .inl ⟨n, rfl, hat⟩

theorem IsTuned.act (hb : b.IsTuned) (hs : b.hub.store.IsWellFormed) (x : BusAction) :
    (b.act x).IsTuned := by
  have hchange := b.change_act x
  have howned {k : Nat} {n' : Node} {id : SubscriptionId} (hn' : (b.act x).nodes[k]? = some n')
      (hown : n'.subscription = some id) :
      ((∃ n, b.nodes[k]? = some n ∧ n.subscription = some id) ∨
        x = .start k ∧ id = b.hub.notifier.subscriptions.length) ∧
        (b.act x).hub.notifier.Feeds id := by
    rcases hchange.of_node hn' with ⟨n, hn, hat⟩ | ⟨hnone, -⟩
    · obtain ⟨hold | hnew, hfeeds⟩ := hat.feeds hb hs hn hown
      · exact ⟨.inl ⟨n, hn, hold⟩, hfeeds⟩
      · exact ⟨.inr hnew, hfeeds⟩
    · rw [hnone] at hown
      cases hown
  refine ⟨hchange.quiet hb.quiet, fun hk hown => (howned hk hown).2, ?_, ?_⟩
  · intro i j m n id hi hj hm hn
    rcases (howned hi hm).1 with ⟨m₀, hm₀, hmold⟩ | ⟨hxi, hnew⟩
    · rcases (howned hj hn).1 with ⟨n₀, hn₀, hnold⟩ | ⟨hxj, hnew⟩
      · exact hb.apart hm₀ hn₀ hmold hnold
      · exact absurd hnew (hb.fed hm₀ hmold).lt_length.ne
    · rcases (howned hj hn).1 with ⟨n₀, hn₀, hnold⟩ | ⟨hxj, -⟩
      · exact absurd hnew (hb.fed hn₀ hnold).lt_length.ne
      · exact BusAction.start.inj (hxi.symm.trans hxj)
  · intro k n' hn' hmode hclaiming
    rcases hchange.of_node hn' with ⟨n, hn, hat⟩ | ⟨-, hnone⟩
    · exact hat.subscribed hb hn hmode hclaiming
    · obtain ⟨c, hc, -⟩ := hclaiming
      rw [hnone] at hc
      cases hc

end Bus

end DurableQueue
