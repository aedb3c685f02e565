import DurableQueue.Proofs.Lock.Tree

/-!
Wake-ups that are on their way to a contender.

`Acquisition.IsAlerted` holds while a contender has a signal waiting that is no mere loss of the
connection, or one of its watches has fired, or its session has told something that it has not been
told yet. A wake-up is never lost on its way: it survives everything that others do
(`IsAlerted.later`) and every listener's step (`IsAlerted.hearEvent`, `IsAlerted.hearWatch`), and
what brings a session back always is one (`isAlerted_of_recorded`).
-/

namespace DurableQueue

namespace Session

/-- Whether a subscriber that has seen this many events is going to be told more than a loss of the
connection. -/
def Wakes (s : Session) (seen : Nat) : Prop :=
  ∃ r ∈ s.receiveAll seen, Acquisition.signalOf r ≠ .sessionLost

/-- The next thing a subscriber receives is the first of all that it is going to receive. -/
theorem receiveAll_of_receive? {s : Session} {seen seen' : Nat} {r : Reception}
    (h : s.receive? seen = some (r, seen')) : s.receiveAll seen = r :: s.receiveAll seen' := by
  unfold receive? at h
  unfold receiveAll
  simp only at h ⊢
  split at h
  · rename_i hlt
    cases h
    have hmax : Nat.max seen (s.events.length - keptEvents) = s.events.length - keptEvents :=
      Nat.max_eq_right (Nat.le_of_lt hlt)
    simp [hlt, hmax]
  · rename_i hge
    obtain ⟨e, he, heq⟩ := Option.map_eq_some_iff.mp h
    obtain ⟨rfl, rfl⟩ := Prod.mk.inj heq
    obtain ⟨hlen, rfl⟩ := List.getElem?_eq_some_iff.mp he
    have hle := Nat.le_of_not_lt hge
    have hmax : Nat.max seen (s.events.length - keptEvents) = seen := Nat.max_eq_left hle
    have hmax' : Nat.max (seen + 1) (s.events.length - keptEvents) = seen + 1 :=
      Nat.max_eq_left (Nat.le_succ_of_le hle)
    have hge' : ¬ seen + 1 < s.events.length - keptEvents := by omega
    rw [if_neg hge, if_neg hge', hmax, hmax', List.drop_eq_getElem_cons hlen]
    rfl

/-- A subscriber never counts more events than there are. -/
theorem seen_le_of_receive? {s : Session} {seen seen' : Nat} {r : Reception}
    (h : s.receive? seen = some (r, seen')) : seen' ≤ s.events.length := by
  unfold receive? at h
  simp only at h
  split at h
  · cases h
    omega
  · obtain ⟨e, he, heq⟩ := Option.map_eq_some_iff.mp h
    obtain ⟨-, rfl⟩ := Prod.mk.inj heq
    exact (List.getElem?_eq_some_iff.mp he).1

theorem signalOf_event_ne {e : SessionEvent} :
    Acquisition.signalOf (.event e) ≠ .sessionLost ↔ e ≠ .disconnected := by
  cases e <;> simp [Acquisition.signalOf]

/-- A subscriber is woken by what it missed or by an event other than a loss. -/
theorem wakes_iff {s : Session} {seen : Nat} :
    s.Wakes seen ↔ seen < s.events.length - keptEvents ∨
      ∃ e ∈ s.events.drop seen, e ≠ .disconnected := by
  unfold Wakes receiveAll
  by_cases hlt : seen < s.events.length - keptEvents
  · simp [hlt, Acquisition.signalOf]
  · have hmax : Nat.max seen (s.events.length - keptEvents) = seen :=
      Nat.max_eq_left (Nat.le_of_not_lt hlt)
    simp only [hlt, ↓reduceIte, hmax, List.nil_append, List.mem_map, false_or]
    constructor
    · rintro ⟨r, ⟨e, he, rfl⟩, hr⟩
      exact ⟨e, he, signalOf_event_ne.mp hr⟩
    · rintro ⟨e, he, hr⟩
      exact ⟨_, ⟨e, he, rfl⟩, signalOf_event_ne.mpr hr⟩

theorem Wakes.append {s s' : Session} {es : List SessionEvent} {seen : Nat} (h : s.Wakes seen)
    (hes : s'.events = s.events ++ es) : s'.Wakes seen := by
  rw [wakes_iff] at h ⊢
  rcases h with h | ⟨e, he, hne⟩
  · left
    rw [hes, List.length_append]
    omega
  · right
    refine ⟨e, ?_, hne⟩
    rw [hes, List.drop_append]
    exact List.mem_append_left _ he

end Session

namespace Coordination

/-- The session of a client, if there is one. -/
def session? (c : Coordination) (client : Nat) : Option Session :=
  c.coordinator.sessions[c.sessionOf client]?

/-- Whether the session of a client is connected. -/
def IsConnected (c : Coordination) (client : Nat) : Prop :=
  ∃ s, c.session? client = some s ∧ s.isConnected = true

end Coordination

namespace Acquisition

variable {a : Acquisition} {c c' : Coordination}

/-- Whether something that wakes a contender is waiting for it or on its way: a signal, a watch that
has fired, or news of its session. -/
def IsAlerted (c : Coordination) (a : Acquisition) : Prop :=
  (∃ signal ∈ a.signals, signal ≠ .sessionLost) ∨
  (∃ w ∈ a.watches, c.coordinator.hasFired w = true) ∨
  ∃ s, c.session? a.client = some s ∧ s.Wakes a.seenEvents

/-- Whatever others do, a wake-up stays on its way. -/
theorem IsAlerted.later (h : a.IsAlerted c) (hl : c.coordinator.Later c'.coordinator)
    (hs : c'.sessionOf a.client = c.sessionOf a.client) : a.IsAlerted c' := by
  rcases h with h | ⟨w, hw, hfired⟩ | ⟨s, hsession, hwakes⟩
  · exact .inl h
  · exact .inr (.inl ⟨w, hw, hl.hasFired hfired⟩)
  · obtain ⟨s', es, hs', hes⟩ := hl.sessions _ s hsession
    refine .inr (.inr ⟨s', ?_, hwakes.append hes⟩)
    rw [Coordination.session?, hs]
    exact hs'

/-- What a contender has waiting is kept when more is added. -/
theorem IsAlerted.of_subset {a' : Acquisition} (h : a.IsAlerted c)
    (hsignals : ∀ signal ∈ a.signals, signal ≠ .sessionLost → signal ∈ a'.signals)
    (hwatches : a.watches ⊆ a'.watches) (hclient : a'.client = a.client)
    (hseen : a'.seenEvents = a.seenEvents) : a'.IsAlerted c := by
  rcases h with ⟨signal, hmem, hne⟩ | ⟨w, hw, hfired⟩ | h
  · exact .inl ⟨signal, hsignals signal hmem hne, hne⟩
  · exact .inr (.inl ⟨w, hwatches hw, hfired⟩)
  · refine .inr (.inr ?_)
    rw [hclient, hseen]
    exact h

theorem isAlerted_of_recorded {s : Session} {e : SessionEvent} {es : List SessionEvent}
    (hs : c.session? a.client = some s) (hes : s.events = es ++ [e]) (hne : e ≠ .disconnected)
    (hseen : a.seenEvents ≤ es.length) : a.IsAlerted c := by
  refine .inr (.inr ⟨s, hs, ?_⟩)
  rw [Session.wakes_iff]
  right
  refine ⟨e, ?_, hne⟩
  rw [hes, List.drop_append_of_le_length hseen]
  exact List.mem_append_right _ (List.mem_singleton_self e)

/-- What a listener to the session does. -/
theorem hearEvent?_eq_some {a' : Acquisition} (h : a.hearEvent? c = some a') :
    ∃ s r seen, c.session? a.client = some s ∧ s.receive? a.seenEvents = some (r, seen) ∧
      a' = { a with seenEvents := seen, signals := a.signals ++ [signalOf r] } := by
  unfold hearEvent? at h
  split at h
  · simp only [Option.bind_eq_bind, Option.bind_eq_some_iff, Prod.exists] at h
    obtain ⟨s, hs, r, seen, hr, heq⟩ := h
    exact ⟨s, r, seen, hs, hr, (Option.some.inj heq).symm⟩
  · cases h

/-- What a listener to a watch does. -/
theorem hearWatch?_eq_some {a' : Acquisition} {w : Nat} (h : a.hearWatch? w c = some a') :
    w ∈ a.watches ∧ c.coordinator.hasFired w = true ∧
      a' = { a with watches := a.watches.erase w, signals := a.signals ++ [.predecessorDeleted] } := by
  unfold hearWatch? at h
  split at h
  · rename_i hcond
    simp only [Bool.and_eq_true, List.contains_iff_mem] at hcond
    exact ⟨hcond.1.2, hcond.2, (Option.some.inj h).symm⟩
  · cases h

theorem IsAlerted.hearEvent {a' : Acquisition} (h : a.IsAlerted c)
    (hh : a.hearEvent? c = some a') : a'.IsAlerted c := by
  obtain ⟨s, r, seen, hs, hr, rfl⟩ := hearEvent?_eq_some hh
  rcases h with ⟨signal, hmem, hne⟩ | h | ⟨s', hs', r', hr', hne⟩
  · exact .inl ⟨signal, List.mem_append_left _ hmem, hne⟩
  · exact .inr (.inl h)
  · rw [hs] at hs'
    cases hs'
    rw [Session.receiveAll_of_receive? hr] at hr'
    rcases List.mem_cons.mp hr' with rfl | hr'
    · exact .inl ⟨_, List.mem_append_right _ (List.mem_singleton_self _), hne⟩
    · exact .inr (.inr ⟨s, hs, r', hr', hne⟩)

theorem isAlerted_of_hearWatch {a' : Acquisition} {w : Nat} (hh : a.hearWatch? w c = some a') :
    a'.IsAlerted c := by
  obtain ⟨-, -, rfl⟩ := hearWatch?_eq_some hh
  exact .inl ⟨.predecessorDeleted, List.mem_append_right _ (List.mem_singleton_self _), by decide⟩

end Acquisition

end DurableQueue
