import DurableQueue.Proofs.Notifier.Run

/-!
The queues of a notifier.

Subscriptions keep their numbers and none that was closed is opened again (`Notifier.Outlasts`). A
notifier `Keeps` what a run tells: its callbacks are those that were registered, in order, whoever is
open is a subscriber, and what an open subscription took and still has is what it was sent.
-/

namespace DurableQueue

open BoardEvent

namespace Notifier

section Queue

variable {n : Notifier} {id id' : SubscriptionId} {f : Subscription → Subscription}

theorem isOpen_iff : n.isOpen id = true ↔ ∃ q, n.subscriptions[id]? = some ⟨q, true⟩ := by
  rw [isOpen]
  cases n.subscriptions[id]? with
  | none => simp
  | some s =>
    obtain ⟨q, isOpen⟩ := s
    simp

theorem lt_of_isOpen (h : n.isOpen id = true) : id < n.subscriptions.length := by
  obtain ⟨q, hid⟩ := isOpen_iff.mp h
  exact (List.getElem?_eq_some_iff.mp hid).1

theorem queued_of_unknown (h : n.subscriptions.length ≤ id) : n.queued id = [] := by
  rw [queued, List.getElem?_eq_none h]

theorem changeSubscription_self :
    (n.changeSubscription id f).subscriptions[id]? = n.subscriptions[id]?.map f := by
  rw [changeSubscription, List.getElem?_modify_eq]
  rfl

theorem changeSubscription_of_ne (h : id' ≠ id) :
    (n.changeSubscription id' f).subscriptions[id]? = n.subscriptions[id]? :=
  List.getElem?_modify_ne f n.subscriptions h

theorem isOpen_changeSubscription_of_ne (h : id' ≠ id) :
    (n.changeSubscription id' f).isOpen id = n.isOpen id := by
  rw [isOpen, isOpen, changeSubscription_of_ne h]

theorem queued_changeSubscription_of_ne (h : id' ≠ id) :
    (n.changeSubscription id' f).queued id = n.queued id := by
  rw [queued, queued, changeSubscription_of_ne h]

/-- A change of a queue opens and closes nothing. -/
theorem isOpen_changeSubscription (hf : ∀ s, (f s).isOpen = s.isOpen) (id' id : SubscriptionId) :
    (n.changeSubscription id' f).isOpen id = n.isOpen id := by
  by_cases h : id' = id
  · subst h
    rw [isOpen, isOpen, changeSubscription_self]
    cases n.subscriptions[id']? with
    | none => rfl
    | some s => exact hf s
  · exact isOpen_changeSubscription_of_ne h

theorem queued_changeSubscription (h : n.isOpen id = true) :
    (n.changeSubscription id f).queued id = (f ⟨n.queued id, true⟩).queue := by
  obtain ⟨q, hid⟩ := isOpen_iff.mp h
  rw [queued, changeSubscription_self, queued, hid]
  rfl

theorem length_changeSubscription :
    (n.changeSubscription id f).subscriptions.length = n.subscriptions.length :=
  List.length_modify ..

theorem isOpen_unsubscribe :
    (n.unsubscribe id').isOpen id = true ↔ id' ≠ id ∧ n.isOpen id = true := by
  rw [unsubscribe]
  by_cases h : id' = id
  · subst h
    rw [isOpen, changeSubscription_self]
    cases n.subscriptions[id']? with
    | none => simp
    | some s => simp
  · rw [isOpen_changeSubscription_of_ne h]
    simp [h]

theorem length_subscribe : n.subscribe.2.subscriptions.length = n.subscriptions.length + 1 := by
  simp [subscribe]

theorem isOpen_subscribe :
    n.subscribe.2.isOpen id = true ↔ n.isOpen id = true ∨ id = n.subscriptions.length := by
  simp only [isOpen_iff, subscribe]
  rcases lt_trichotomy id n.subscriptions.length with hlt | heq | hgt
  · rw [List.getElem?_append_left hlt]
    simp [hlt.ne]
  · simp [heq]
  · rw [List.getElem?_eq_none hgt.le, List.getElem?_eq_none (by simpa using Nat.succ_le_of_lt hgt)]
    simp [hgt.ne']

theorem queued_subscribe (h : id ≠ n.subscriptions.length) : n.subscribe.2.queued id = n.queued id := by
  simp only [queued, subscribe]
  rcases h.lt_or_gt with hlt | hgt
  · rw [List.getElem?_append_left hlt]
  · rw [List.getElem?_eq_none hgt.le, List.getElem?_eq_none (by simpa using Nat.succ_le_of_lt hgt)]

theorem queued_subscribe_self : n.subscribe.2.queued n.subscriptions.length = [] := by
  simp [queued, subscribe]

end Queue

/-- Every subscription that was ever opened keeps its number, and closed ones stay closed. -/
structure Outlasts (n n' : Notifier) : Prop where
  known : n.subscriptions.length ≤ n'.subscriptions.length
  closed : ∀ id < n.subscriptions.length, n'.isOpen id = true → n.isOpen id = true

namespace Outlasts

variable (n : Notifier)

theorem refl : Outlasts n n := ⟨le_rfl, fun _ _ h => h⟩

theorem changeSubscription (id : SubscriptionId) {f : Subscription → Subscription}
    (hf : ∀ s, (f s).isOpen = s.isOpen) : Outlasts n (n.changeSubscription id f) where
  known := length_changeSubscription.ge
  closed id' _ h := by rwa [isOpen_changeSubscription hf] at h

theorem unsubscribe (id : SubscriptionId) : Outlasts n (n.unsubscribe id) where
  known := length_changeSubscription.ge
  closed _ _ h := (isOpen_unsubscribe.mp h).2

theorem react (r : Reaction) : Outlasts n (n.react r) := by
  cases r with
  | onCommit c => exact ⟨le_rfl, fun _ _ h => h⟩
  | onRollback c => exact ⟨le_rfl, fun _ _ h => h⟩
  | subscribe =>
    refine ⟨?_, ?_⟩
    · exact (Nat.le_succ _).trans_eq length_subscribe.symm
    · intro id hlt hopen
      rcases isOpen_subscribe.mp hopen with hopen | rfl
      · exact hopen
      · exact absurd hlt (lt_irrefl _)

theorem send (id : SubscriptionId) (e : TransactionEvent) : Outlasts n (n.send id e) := by
  refine changeSubscription n id fun s => ?_
  split
  · rfl
  · rfl

end Outlasts

/-- The notifier is as a run tells. -/
structure Keeps (n : Notifier) (log : List BoardEvent) : Prop where
  callbacks : ∀ o, n.callbacks o = registrations o log
  /-- Whoever is open is a subscriber. -/
  subscribed : ∀ id, n.isOpen id = true → id ∈ n.subscribers
  nodup : n.subscribers.Nodup
  known : ∀ id ∈ n.subscribers, id < n.subscriptions.length
  numbered : ∀ x ∈ log, ∀ id, x.subscription? = some id → id < n.subscriptions.length
  live : ∀ id, n.isOpen id = true ↔ Live id log
  /-- What was taken and what is queued is what was sent. -/
  output : ∀ id, n.isOpen id = true →
    received id log ++ n.queued id = (deliveries id log).map Prod.snd
  /-- Nothing was sent to a number that is not given yet. -/
  fresh : ∀ id, n.subscriptions.length ≤ id → received id log = [] ∧ deliveries id log = []

namespace Keeps

theorem empty : Keeps .empty [] where
  callbacks o := by cases o <;> rfl
  subscribed _ h := by cases h
  nodup := List.nodup_nil
  known _ h := by cases h
  numbered _ h := by cases h
  live id := by
    refine iff_of_false Bool.false_ne_true ?_
    rintro ⟨hopened, -⟩
    cases hopened
  output _ h := by cases h
  fresh _ _ := ⟨rfl, rfl⟩

variable {n : Notifier} {log more : List BoardEvent} {id : SubscriptionId}

/-- What neither was sent to a subscription nor was taken from it leaves its output. -/
theorem output_append (h : Keeps n log) (hopen : n.isOpen id = true) (hreceived : received id more = [])
    (hdeliveries : deliveries id more = []) :
    received id (log ++ more) ++ n.queued id = (deliveries id (log ++ more)).map Prod.snd := by
  rw [received_append, deliveries_append, hreceived, hdeliveries, List.append_nil, List.append_nil,
    h.output id hopen]

theorem fresh_append (h : Keeps n log) (hunknown : n.subscriptions.length ≤ id)
    (hreceived : received id more = []) (hdeliveries : deliveries id more = []) :
    received id (log ++ more) = [] ∧ deliveries id (log ++ more) = [] := by
  obtain ⟨hreceived', hdeliveries'⟩ := h.fresh id hunknown
  rw [received_append, deliveries_append, hreceived, hdeliveries, hreceived', hdeliveries']
  exact ⟨rfl, rfl⟩

/-- What concerns announcements alone is of no matter to the notifier. -/
theorem quiet (h : Keeps n log) (hregistrations : ∀ o, registrations o more = [])
    (hnone : ∀ x ∈ more, x.subscription? = none) (hdeliveries : ∀ id, deliveries id more = [])
    (hreceived : ∀ id, received id more = []) : Keeps n (log ++ more) where
  callbacks o := by rw [registrations_append, hregistrations, List.append_nil, h.callbacks o]
  subscribed := h.subscribed
  nodup := h.nodup
  known := h.known
  numbered x hx id hid := by
    rcases List.mem_append.mp hx with hx | hx
    · exact h.numbered x hx id hid
    · exact absurd hid (by simp [hnone x hx])
  live id := (h.live id).trans (live_append fun x hx hid => absurd hid (by simp [hnone x hx])).symm
  output id hopen := h.output_append hopen (hreceived id) (hdeliveries id)
  fresh id hunknown := h.fresh_append hunknown (hreceived id) (hdeliveries id)

/-- A change of one queue is kept when what flows in and out of it is told. -/
theorem change (h : Keeps n log) {f : Subscription → Subscription} {x : BoardEvent}
    (hf : ∀ s, (f s).isOpen = s.isOpen) (hregistrations : ∀ o, registrations o [x] = [])
    (hnone : x.subscription? = none)
    (hothers : ∀ id', id ≠ id' → received id' [x] = [] ∧ deliveries id' [x] = [])
    (hflow : received id [x] ++ (f ⟨n.queued id, true⟩).queue =
      n.queued id ++ (deliveries id [x]).map Prod.snd)
    (hfresh : n.subscriptions.length ≤ id → received id [x] = [] ∧ deliveries id [x] = []) :
    Keeps (n.changeSubscription id f) (log ++ [x]) where
  callbacks o := by
    rw [registrations_append, hregistrations, List.append_nil, ← h.callbacks o]
    cases o <;> rfl
  subscribed id' hopen := h.subscribed id' (by rwa [isOpen_changeSubscription hf] at hopen)
  nodup := h.nodup
  known id' hmem := by
    rw [length_changeSubscription]
    exact h.known id' hmem
  numbered y hy id' hid := by
    rw [length_changeSubscription]
    rcases List.mem_append.mp hy with hy | hy
    · exact h.numbered y hy id' hid
    · rw [List.mem_singleton.mp hy, hnone] at hid
      cases hid
  live id' := by
    rw [isOpen_changeSubscription hf, h.live id']
    refine (live_append fun y hy hid => ?_).symm
    rw [List.mem_singleton.mp hy, hnone] at hid
    cases hid
  output id' hopen := by
    rw [isOpen_changeSubscription hf] at hopen
    have hbefore := h.output id' hopen
    rw [received_append, deliveries_append, List.map_append]
    by_cases hid : id = id'
    · subst hid
      rw [queued_changeSubscription hopen, List.append_assoc, hflow, ← List.append_assoc, hbefore]
    · obtain ⟨hreceived, hdeliveries⟩ := hothers id' hid
      rw [queued_changeSubscription_of_ne hid, hreceived, hdeliveries, List.append_nil, hbefore]
      exact (List.append_nil _).symm
  fresh id' hunknown := by
    rw [length_changeSubscription] at hunknown
    obtain ⟨hreceived, hdeliveries⟩ := h.fresh id' hunknown
    rw [received_append, deliveries_append, hreceived, hdeliveries, List.nil_append, List.nil_append]
    by_cases hid : id = id'
    · exact hid ▸ hfresh (hid ▸ hunknown)
    · exact hothers id' hid

theorem send (h : Keeps n log) (i : Nat) (e : TransactionEvent) (hid : id < n.subscriptions.length) :
    Keeps (n.send id e) (log ++ [.sent i e id]) := by
  refine h.change (fun s => ?_) (fun _ => rfl) rfl (fun id' hne => ?_) ?_
    (fun hunknown => absurd hid hunknown.not_gt)
  · split
    · rfl
    · rfl
  · exact ⟨rfl, by simp [deliveries, hne]⟩
  · simp [received, deliveries]

theorem receive (h : Keeps n log) (id : SubscriptionId) :
    Keeps (n.receive id).2 (log ++ [.taken id (n.receive id).1.toList]) := by
  refine h.change (fun _ => rfl) (fun _ => rfl) rfl (fun id' hne => ?_) ?_
    (fun hunknown => ?_)
  · exact ⟨by simp [received, hne], rfl⟩
  · simp only [received, Notifier.receive, deliveries]
    cases n.queued id with
    | nil => simp
    | cons e q => simp
  · simp [received, Notifier.receive, queued_of_unknown hunknown, deliveries]

theorem drain (h : Keeps n log) (id : SubscriptionId) :
    Keeps (n.drain id).2 (log ++ [.taken id (n.drain id).1]) := by
  refine h.change (fun _ => rfl) (fun _ => rfl) rfl (fun id' hne => ?_) ?_
    (fun hunknown => ?_)
  · exact ⟨by simp [received, hne], rfl⟩
  · simp [received, Notifier.drain, deliveries]
  · simp [received, Notifier.drain, queued_of_unknown hunknown, deliveries]

theorem silent_closed (isOpen : Bool) (id id' : SubscriptionId) :
    received id' (if isOpen then [.closed id] else []) = [] ∧
      deliveries id' (if isOpen then [.closed id] else []) = [] := by
  cases isOpen with
  | false => exact ⟨rfl, rfl⟩
  | true => exact ⟨rfl, rfl⟩

theorem unsubscribe (h : Keeps n log) (id : SubscriptionId) :
    Keeps (n.unsubscribe id) (log ++ if n.isOpen id then [.closed id] else []) where
  callbacks o := by
    have hnone : registrations o (if n.isOpen id then [.closed id] else []) = [] := by
      split
      · rfl
      · rfl
    rw [registrations_append, hnone, List.append_nil, ← h.callbacks o]
    cases o <;> rfl
  subscribed id' hopen := h.subscribed id' (isOpen_unsubscribe.mp hopen).2
  nodup := h.nodup
  known id' hmem := (h.known id' hmem).trans_eq length_changeSubscription.symm
  numbered x hx id' hid := by
    refine lt_of_lt_of_eq ?_ length_changeSubscription.symm
    rcases List.mem_append.mp hx with hx | hx
    · exact h.numbered x hx id' hid
    · split at hx
      · rename_i hopen
        rw [List.mem_singleton.mp hx] at hid
        exact Option.some.inj hid ▸ lt_of_isOpen hopen
      · cases hx
  live id' := by
    rw [isOpen_unsubscribe, h.live id']
    split
    · simp only [Live, List.mem_append, List.mem_singleton]
      simp [and_comm, and_assoc, eq_comm]
    · rename_i hclosed
      rw [h.live id] at hclosed
      rw [List.append_nil]
      exact and_iff_right_of_imp fun hlive heq => hclosed (heq ▸ hlive)
  output id' hopen := by
    obtain ⟨hne, hopen⟩ := isOpen_unsubscribe.mp hopen
    obtain ⟨hreceived, hdeliveries⟩ := silent_closed (n.isOpen id) id id'
    rw [Notifier.unsubscribe, queued_changeSubscription_of_ne hne]
    exact h.output_append hopen hreceived hdeliveries
  fresh id' hunknown := by
    obtain ⟨hreceived, hdeliveries⟩ := silent_closed (n.isOpen id) id id'
    exact h.fresh_append (length_changeSubscription.ge.trans hunknown) hreceived hdeliveries

/-- A callback that is registered is the last of its outcome. -/
theorem registered (h : Keeps n log) {n' : Notifier} {o : TransactionOutcome} {c : Callback}
    (hsubscribers : n'.subscribers = n.subscribers) (hsubscriptions : n'.subscriptions = n.subscriptions)
    (hcallbacks : ∀ o', n'.callbacks o' = n.callbacks o' ++ if o = o' then [c] else []) :
    Keeps n' (log ++ [.registered o c]) := by
  have hopen : n'.isOpen = n.isOpen := by
    funext id
    rw [isOpen, isOpen, hsubscriptions]
  have hqueued : n'.queued = n.queued := by
    funext id
    rw [queued, queued, hsubscriptions]
  refine ⟨fun o' => ?_, ?_, ?_, ?_, fun x hx id hid => ?_, fun id => ?_, fun id hopen' => ?_,
    fun id hunknown => ?_⟩
  · rw [hcallbacks, registrations_append, h.callbacks o']
    by_cases ho : o = o'
    · simp [registrations, ho]
    · simp [registrations, ho]
  · rw [hopen, hsubscribers]
    exact h.subscribed
  · rw [hsubscribers]
    exact h.nodup
  · rw [hsubscribers, hsubscriptions]
    exact h.known
  · rw [hsubscriptions]
    rcases List.mem_append.mp hx with hx | hx
    · exact h.numbered x hx id hid
    · rw [List.mem_singleton.mp hx] at hid
      cases hid
  · rw [hopen, h.live id]
    exact (live_append (by simp [subscription?])).symm
  · rw [hopen] at hopen'
    rw [hqueued]
    exact h.output_append hopen' rfl rfl
  · rw [hsubscriptions] at hunknown
    exact h.fresh_append hunknown rfl rfl

/-- A subscription that is opened becomes a subscriber; only closed ones are forgotten. -/
theorem subscribe (h : Keeps n log) :
    Keeps n.subscribe.2 (log ++ [.opened n.subscriptions.length]) where
  callbacks o := by
    rw [registrations_append, ← h.callbacks o]
    cases o with
    | commit => exact (List.append_nil _).symm
    | rollback => exact (List.append_nil _).symm
  subscribed id hopen := by
    refine List.mem_append.mpr ?_
    rcases isOpen_subscribe.mp hopen with hopen | rfl
    · exact .inl (List.mem_filter.mpr ⟨h.subscribed id hopen, hopen⟩)
    · exact .inr (List.mem_singleton_self _)
  nodup := by
    refine List.nodup_append.mpr ⟨h.nodup.filter _, List.pairwise_singleton _ _, ?_⟩
    intro id hmem id' hid'
    rw [List.mem_singleton] at hid'
    exact hid' ▸ (h.known id (List.mem_filter.mp hmem).1).ne
  known id hmem := by
    rw [length_subscribe]
    rcases List.mem_append.mp hmem with hmem | hmem
    · exact (h.known id (List.mem_filter.mp hmem).1).trans (Nat.lt_succ_self _)
    · exact List.mem_singleton.mp hmem ▸ Nat.lt_succ_self _
  numbered x hx id hid := by
    rw [length_subscribe]
    rcases List.mem_append.mp hx with hx | hx
    · exact (h.numbered x hx id hid).trans (Nat.lt_succ_self _)
    · rw [List.mem_singleton.mp hx] at hid
      exact Option.some.inj hid ▸ Nat.lt_succ_self _
  live id := by
    rw [isOpen_subscribe, h.live id]
    by_cases hid : id = n.subscriptions.length
    · have hnew : .closed id ∉ log := fun hmem => (h.numbered _ hmem id rfl).ne hid
      subst hid
      simp [Live, hnew]
    · rw [or_iff_left hid]
      exact (live_append (by simpa [subscription?] using fun heq => hid heq.symm)).symm
  output id hopen := by
    by_cases hid : id = n.subscriptions.length
    · subst hid
      have hnone : received n.subscriptions.length [.opened n.subscriptions.length] = [] := rfl
      obtain ⟨hreceived, hdeliveries⟩ := h.fresh_append le_rfl hnone rfl
      rw [hreceived, hdeliveries, queued_subscribe_self]
      rfl
    · have hopen' := (isOpen_subscribe.mp hopen).resolve_right hid
      rw [queued_subscribe hid]
      exact h.output_append hopen' rfl rfl
  fresh id hunknown :=
    h.fresh_append ((Outlasts.react n .subscribe).known.trans hunknown) rfl rfl

theorem react (h : Keeps n log) (r : Reaction) : Keeps (n.react r) (log ++ r.tells n) := by
  cases r with
  | onCommit c =>
    refine h.registered rfl rfl fun o => ?_
    cases o with
    | commit => rfl
    | rollback => exact (List.append_nil _).symm
  | onRollback c =>
    refine h.registered rfl rfl fun o => ?_
    cases o with
    | commit => exact (List.append_nil _).symm
    | rollback => rfl
  | subscribe => exact h.subscribe

end Keeps

end Notifier

end DurableQueue
