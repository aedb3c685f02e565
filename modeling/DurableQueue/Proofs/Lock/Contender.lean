import DurableQueue.Proofs.Lock.ServiceChange

/-!
What one step of a contender does.

`Acquisition.Move` says everything that a step of a contender can do to it and to the service, as
long as its client meets no faults: `move_of_step?` reads it off `Acquisition.step?`. A contender
whose stage fits its state (`IsStaged`) and whose signals come from its listeners (`IsHeard`) stays
so, and keeps one node at most (`node?`).
-/

namespace DurableQueue

namespace LockSignal

/-- Whether a signal is one that listeners send. -/
def isHeard : LockSignal → Bool
  | predecessorDeleted | sessionLost | sessionRestored | sessionExpired => true
  | _ => false

end LockSignal

namespace Acquisition

theorem isHeard_signalOf (r : Reception) : (signalOf r).isHeard = true := by
  cases r with
  | event e => cases e <;> rfl
  | missed count => rfl

/-- The node of a contender: its own one, or the one that it left behind. -/
def node? (a : Acquisition) : Option String := a.state.node? <|> a.stale

/-- Whether the stage of a contender fits its state. -/
def IsStaged (a : Acquisition) : Prop :=
  match a.stage with
  | .discarding => a.state = .unlocked
  | .creating => a.state = .unlocked ∧ a.stale = none
  | .listing node => a.state = .waiting node
  | .watching node _ => a.state = .waiting node
  | .awaiting => ∀ node, a.state ≠ .held node
  | .withdrawing => a.state = .unlocked
  | .abandoning _ _ => False
  | .over (.ok node) => a.state.node? = node
  | .over (.error _) => False

namespace IsStaged

variable {a : Acquisition} {node predecessor : String}

theorem state_of_discarding (h : a.IsStaged) (stage : a.stage = .discarding) :
    a.state = .unlocked := by
  unfold IsStaged at h
  rwa [stage] at h

theorem state_of_creating (h : a.IsStaged) (stage : a.stage = .creating) : a.state = .unlocked := by
  unfold IsStaged at h
  rw [stage] at h
  exact h.1

theorem stale_of_creating (h : a.IsStaged) (stage : a.stage = .creating) : a.stale = none := by
  unfold IsStaged at h
  rw [stage] at h
  exact h.2

theorem state_of_listing (h : a.IsStaged) (stage : a.stage = .listing node) :
    a.state = .waiting node := by
  unfold IsStaged at h
  rwa [stage] at h

theorem state_of_watching (h : a.IsStaged) (stage : a.stage = .watching node predecessor) :
    a.state = .waiting node := by
  unfold IsStaged at h
  rwa [stage] at h

theorem state_of_awaiting (h : a.IsStaged) (stage : a.stage = .awaiting) (node : String) :
    a.state ≠ .held node := by
  unfold IsStaged at h
  rw [stage] at h
  exact h node

theorem state_of_withdrawing (h : a.IsStaged) (stage : a.stage = .withdrawing) :
    a.state = .unlocked := by
  unfold IsStaged at h
  rwa [stage] at h

end IsStaged

/-- Whether all signals of a contender come from its listeners. -/
def IsHeard (a : Acquisition) : Prop := ∀ signal ∈ a.signals, signal.isHeard = true

/-- What clearing away the node that it left behind does to the service. -/
def clearing (c : Coordination) (a : Acquisition) : ServiceChange :=
  match a.stale with
  | some node => c.deletion a.client node
  | none => .none

/-- A contender that has set a watch and waits. -/
def withWatch (a : Acquisition) (w : Nat) : Acquisition :=
  { a with watches := a.watches ++ [w], stage := .awaiting }

/-- What a step of a contender does to it and to the service. -/
inductive Move (now : Nat) (c : Coordination) (a : Acquisition) :
    Acquisition → ServiceChange → Prop where
  | discarded (stage : a.stage = .discarding) :
    Move now c a { a with stale := none, stage := .creating } (a.clearing c)
  | created {s : Session} (stage : a.stage = .creating) (session : c.session? a.client = some s)
    (connected : s.isConnected = true) :
    Move now c a
      (a.advance (.created (nodePath a.directory (c.coordinator.nextNumber a.directory))))
      (.node s.identity a.directory)
  /-- The connection was gone when it called. -/
  | refused (stage : a.stage = .creating ∨ (∃ node, a.stage = .listing node) ∨
      ∃ node predecessor, a.stage = .watching node predecessor)
    (lost : ¬ c.IsConnected a.client) :
    Move now c a { a with stage := .awaiting } .none
  | first {node : String} (stage : a.stage = .listing node) (connected : c.IsConnected a.client)
    (position : NodePosition.of (nameOf node) (c.coordinator.childNames a.directory) = .first) :
    Move now c a (a.advance .acquired) .none
  | absent {node : String} (stage : a.stage = .listing node) (connected : c.IsConnected a.client)
    (position : NodePosition.of (nameOf node) (c.coordinator.childNames a.directory) = .absent) :
    Move now c a (a.advance .sessionExpired) .none
  | behind {node name : String} (stage : a.stage = .listing node)
    (connected : c.IsConnected a.client)
    (position : NodePosition.of (nameOf node) (c.coordinator.childNames a.directory) =
      .behind name) :
    Move now c a { a with stage := .watching node (a.directory ++ "/" ++ name) } .none
  | watched {node predecessor : String} (stage : a.stage = .watching node predecessor)
    (present : c.coordinator.hasNode predecessor = true) :
    Move now c a (a.withWatch c.coordinator.watches.length) (.watch predecessor)
  /-- The node to watch was gone already. -/
  | vanished {node predecessor : String} (stage : a.stage = .watching node predecessor)
    (gone : c.coordinator.hasNode predecessor = false) :
    Move now c a { a with signals := a.signals ++ [.predecessorDeleted], stage := .awaiting } .none
  /-- It hears of a loss of the connection and goes on waiting. -/
  | lossHeard {rest : List LockSignal} (stage : a.stage = .awaiting)
    (signals : a.signals = .sessionLost :: rest) :
    Move now c a { a with signals := rest } .none
  | woken {signal : LockSignal} {rest : List LockSignal} (stage : a.stage = .awaiting)
    (signals : a.signals = signal :: rest) (ne : signal ≠ .sessionLost) :
    Move now c a ({ a with signals := rest }.advance signal) .none
  | timedOut (stage : a.stage = .awaiting) (due : a.deadline ≤ now) :
    Move now c a { a.apply .timedOut with stage := .withdrawing } .none
  | withdrawn (stage : a.stage = .withdrawing) :
    Move now c a { a with stale := none, stage := .over (.ok none) } (a.clearing c)

section

variable {now : Nat} {a a' : Acquisition} {c c' : Coordination} {ch : ServiceChange}

theorem discard_eq_after (h : c.IsFaultless) (a : Acquisition) :
    a.discard a.stale c = c.after (a.clearing c) := by
  unfold discard clearing
  cases a.stale with
  | none => rfl
  | some node => exact Coordination.delete_eq_after h a.client node

theorem apply_sessionLost (a : Acquisition) : a.apply .sessionLost = a := by
  have hnext : a.state.next .sessionLost = a.state := by cases a.state <;> rfl
  unfold apply
  simp only [hnext]
  split
  · rename_i h
    have hnone : a.state.node? = none := by rw [h]; rfl
    rw [hnone]
    rfl
  · rfl

/-- Every step of a contender is a move. -/
theorem move_of_step? (hf : c.IsFaultless) (hh : a.IsHeard) (hs : a.IsStaged)
    (h : a.step? now c = some (a', c')) : ∃ ch, Move now c a a' ch ∧ c' = c.after ch := by
  unfold step? at h
  unfold IsStaged at hs
  cases hstage : a.stage with
  | discarding =>
    rw [hstage] at h
    cases h
    exact ⟨_, .discarded hstage, discard_eq_after hf a⟩
  | creating =>
    rw [hstage] at h
    rcases Coordination.create_cases hf a.client a.directory with ⟨s, hsession, hc, heq⟩ | ⟨hc, heq⟩
    · simp only [heq] at h
      cases h
      exact ⟨_, .created hstage hsession hc, rfl⟩
    · simp only [heq] at h
      cases h
      exact ⟨_, .refused (.inl hstage) hc, rfl⟩
  | listing node =>
    rw [hstage] at h
    rcases Coordination.children_cases hf a.client a.directory with ⟨hc, heq⟩ | ⟨hc, heq⟩
    · simp only [heq] at h
      cases hp : NodePosition.of (nameOf node) (c.coordinator.childNames a.directory) with
      | first =>
        rw [hp] at h
        cases h
        exact ⟨_, .first hstage hc hp, rfl⟩
      | absent =>
        rw [hp] at h
        cases h
        exact ⟨_, .absent hstage hc hp, rfl⟩
      | behind name =>
        rw [hp] at h
        cases h
        exact ⟨_, .behind hstage hc hp, rfl⟩
    · simp only [heq] at h
      cases h
      exact ⟨_, .refused (.inr (.inl ⟨node, hstage⟩)) hc, rfl⟩
  | watching node predecessor =>
    rw [hstage] at h
    rcases Coordination.watch_cases hf a.client predecessor with ⟨hp, heq⟩ | ⟨hp, heq⟩ | ⟨hc, heq⟩
    · simp only [heq] at h
      cases h
      exact ⟨_, .watched hstage hp, rfl⟩
    · simp only [heq] at h
      cases h
      exact ⟨_, .vanished hstage hp, rfl⟩
    · simp only [heq] at h
      cases h
      exact ⟨_, .refused (.inr (.inr ⟨node, predecessor, hstage⟩)) hc, rfl⟩
  | awaiting =>
    rw [hstage] at h
    cases hsignals : a.signals with
    | nil =>
      simp only [hsignals] at h
      split at h
      · rename_i hdue
        cases h
        exact ⟨_, .timedOut hstage hdue, rfl⟩
      · cases h
    | cons signal rest =>
      have hheard := hh signal (by rw [hsignals]; exact List.mem_cons_self)
      simp only [hsignals] at h
      cases signal with
      | sessionLost =>
        cases h
        have hmove : Move now c a { a with signals := rest } .none := .lossHeard hstage hsignals
        rw [hstage] at hmove
        rw [apply_sessionLost]
        exact ⟨.none, hmove, rfl⟩
      | timedOut => cases hheard
      | created node => cases hheard
      | acquired => cases hheard
      | predecessorDeleted =>
        cases h
        exact ⟨_, .woken hstage hsignals (by decide), rfl⟩
      | sessionRestored =>
        cases h
        exact ⟨_, .woken hstage hsignals (by decide), rfl⟩
      | sessionExpired =>
        cases h
        exact ⟨_, .woken hstage hsignals (by decide), rfl⟩
  | withdrawing =>
    rw [hstage] at h
    cases h
    exact ⟨_, .withdrawn hstage, discard_eq_after hf a⟩
  | abandoning node error =>
    rw [hstage] at hs
    exact hs.elim
  | «over» result =>
    rw [hstage] at h
    cases h

/-- Signals other than a creation leave a contender the node that it has. -/
theorem node?_apply (a : Acquisition) {signal : LockSignal}
    (h : ∀ node, signal ≠ .created node) : (a.apply signal).node? = a.node? := by
  unfold apply node?
  cases a.state <;> cases signal <;>
    simp_all [LockState.next, LockState.node?]

theorem node?_advance (a : Acquisition) {signal : LockSignal}
    (h : ∀ node, signal ≠ .created node) : (a.advance signal).node? = a.node? := node?_apply a h

theorem node?_of_waiting {node : String} (h : a.state = .waiting node) : a.node? = some node := by
  rw [node?, h]
  rfl

theorem ne_created_of_isHeard {signal : LockSignal} (h : signal.isHeard = true) (node : String) :
    signal ≠ .created node := by
  rintro rfl
  cases h

theorem node?_of_state {node : String} (h : a.state.node? = some node) : a.node? = some node := by
  rw [node?, h]
  rfl

/-- A contender goes on from a state without the lock with a stage that fits. -/
theorem isStaged_advance {signal : LockSignal} (h : ∀ node, (a.advance signal).state ≠ .held node) :
    (a.advance signal).IsStaged := by
  have hstage : (a.advance signal).stage = stageOf (a.advance signal).state := rfl
  unfold IsStaged
  rw [hstage]
  cases hstate : (a.advance signal).state with
  | unlocked => exact rfl
  | waiting node => exact rfl
  | held node => exact absurd hstate (h node)

/-- No signal of a listener gives the lock. -/
theorem next_ne_held {state : LockState} {signal : LockSignal} (h : signal.isHeard = true)
    (hstate : ∀ node, state ≠ .held node) (node : String) : state.next signal ≠ .held node := by
  cases state with
  | unlocked => cases signal <;> simp_all [LockState.next, LockSignal.isHeard]
  | waiting own => cases signal <;> simp_all [LockState.next, LockSignal.isHeard]
  | held own => exact absurd rfl (hstate own)

theorem stageOf_eq_acquired {state : LockState} {node : String}
    (h : stageOf state = .over (.ok (some node))) : state = .held node := by
  cases state <;> simp_all [stageOf]

theorem stageOf_ne_watching (state : LockState) (node predecessor : String) :
    stageOf state ≠ .watching node predecessor := by
  cases state <;> simp [stageOf]

theorem stageOf_ne_awaiting (state : LockState) : stageOf state ≠ .awaiting := by
  cases state <;> simp [stageOf]

namespace Move

/-- A contender keeps what it was begun with. -/
theorem client_eq (h : Move now c a a' ch) : a'.client = a.client := by
  cases h <;> rfl

theorem directory_eq (h : Move now c a a' ch) : a'.directory = a.directory := by
  cases h <;> rfl

theorem seenEvents_eq (h : Move now c a a' ch) : a'.seenEvents = a.seenEvents := by
  cases h <;> rfl

theorem isHeard (h : Move now c a a' ch) (hh : a.IsHeard) : a'.IsHeard := by
  cases h with
  | vanished stage gone =>
    intro signal hmem
    rcases List.mem_append.mp hmem with hmem | hmem
    · exact hh signal hmem
    · rw [List.mem_singleton.mp hmem]
      rfl
  | lossHeard stage signals =>
    intro signal hmem
    exact hh signal (by rw [signals]; exact List.mem_cons_of_mem _ hmem)
  | woken stage signals ne =>
    intro signal hmem
    exact hh signal (by rw [signals]; exact List.mem_cons_of_mem _ hmem)
  | _ => exact hh

theorem isStaged (h : Move now c a a' ch) (hh : a.IsHeard) (hs : a.IsStaged) : a'.IsStaged := by
  cases h with
  | discarded stage => exact ⟨hs.state_of_discarding stage, rfl⟩
  | created stage session connected =>
    refine isStaged_advance fun node => ?_
    rw [advance, apply_state, hs.state_of_creating stage]
    simp [LockState.next]
  | refused stage lost =>
    intro node
    show a.state ≠ .held node
    rcases stage with stage | ⟨own, stage⟩ | ⟨own, p, stage⟩
    · simp [hs.state_of_creating stage]
    · simp [hs.state_of_listing stage]
    · simp [hs.state_of_watching stage]
  | @first node stage connected position =>
    have hstate : (a.advance .acquired).state = .held node := by
      rw [advance, apply_state, hs.state_of_listing stage]
      rfl
    unfold IsStaged
    rw [show (a.advance .acquired).stage = stageOf (a.advance .acquired).state from rfl, hstate]
    rfl
  | absent stage connected position =>
    refine isStaged_advance fun node => ?_
    rw [advance, apply_state, hs.state_of_listing stage]
    simp [LockState.next]
  | behind stage connected position => exact hs.state_of_listing stage
  | watched stage present =>
    intro node
    show a.state ≠ .held node
    simp [hs.state_of_watching stage]
  | vanished stage gone =>
    intro node
    show a.state ≠ .held node
    simp [hs.state_of_watching stage]
  | lossHeard stage signals =>
    unfold IsStaged
    simp only [stage]
    exact hs.state_of_awaiting stage
  | @woken signal rest stage signals ne =>
    have hheard := hh signal (by rw [signals]; exact List.mem_cons_self)
    exact isStaged_advance (next_ne_held hheard (hs.state_of_awaiting stage))
  | timedOut stage due => exact LockState.next_of_resets a.state rfl
  | withdrawn stage =>
    show a.state.node? = none
    rw [hs.state_of_withdrawing stage]
    rfl

/-- After a step a contender has a new node, the node that it had, or none. -/
theorem node?_cases (h : Move now c a a' ch) (hh : a.IsHeard) (hs : a.IsStaged) :
    (∃ s, c.session? a.client = some s ∧ ch = .node s.identity a.directory ∧
        a'.node? = some (nodePath a.directory (c.coordinator.nextNumber a.directory))) ∨
      a'.node? = a.node? ∨ a'.node? = none := by
  cases h with
  | discarded stage =>
    right
    right
    simp [node?, hs.state_of_discarding stage, LockState.node?]
  | @created s stage session connected =>
    left
    refine ⟨s, session, rfl, node?_of_state ?_⟩
    rw [advance, apply_state, hs.state_of_creating stage]
    rfl
  | first stage connected position => exact .inr (.inl (node?_advance a (by simp)))
  | absent stage connected position => exact .inr (.inl (node?_advance a (by simp)))
  | @woken signal rest stage signals ne =>
    have hheard := hh signal (by rw [signals]; exact List.mem_cons_self)
    exact .inr (.inl (node?_advance { a with signals := rest } (ne_created_of_isHeard hheard)))
  | timedOut stage due => exact .inr (.inl (node?_apply a (by simp)))
  | withdrawn stage =>
    right
    right
    simp [node?, hs.state_of_withdrawing stage, LockState.node?]
  | _ => exact .inr (.inl rfl)

/-- A contender reaches the lock only with a listing that has its node in front. -/
theorem grant {node : String} (h : Move now c a a' ch) (hh : a.IsHeard) (hs : a.IsStaged)
    (hover : a'.stage = .over (.ok (some node))) :
    a.stage = .listing node ∧ c.IsConnected a.client ∧
      NodePosition.of (nameOf node) (c.coordinator.childNames a.directory) = .first ∧
      ch = .none := by
  cases h with
  | created stage session connected =>
    have hheld := stageOf_eq_acquired hover
    rw [apply_state, hs.state_of_creating stage] at hheld
    cases hheld
  | first stage connected position =>
    have hheld := stageOf_eq_acquired hover
    rw [apply_state, hs.state_of_listing stage] at hheld
    cases hheld
    exact ⟨stage, connected, position, rfl⟩
  | absent stage connected position =>
    have hheld := stageOf_eq_acquired hover
    rw [apply_state, hs.state_of_listing stage] at hheld
    cases hheld
  | @woken signal rest stage signals ne =>
    have hheard := hh signal (by rw [signals]; exact List.mem_cons_self)
    have hheld := stageOf_eq_acquired hover
    exact absurd hheld (next_ne_held hheard (hs.state_of_awaiting stage) node)
  | lossHeard stage signals => cases stage.symm.trans hover
  | _ => cases hover

theorem clearing_eq_removal {path : String} (h : a.clearing c = .removal path) :
    a.stale = some path := by
  unfold clearing at h
  cases hstale : a.stale with
  | none =>
    rw [hstale] at h
    cases h
  | some node =>
    rw [hstale] at h
    rcases c.deletion_eq a.client node with hd | hd
    · simp only [hd] at h
      cases h
    · simp only [hd] at h
      cases h
      rfl

/-- A contender removes nothing but the node that it left behind. -/
theorem removal_cases {path : String} (h : Move now c a a' (.removal path)) (hs : a.IsStaged) :
    a.node? = some path ∧ a'.node? = none := by
  generalize hch : ServiceChange.removal path = ch at h
  cases h with
  | discarded stage =>
    have hstale := clearing_eq_removal hch.symm
    simp [node?, hs.state_of_discarding stage, hstale, LockState.node?]
  | withdrawn stage =>
    have hstale := clearing_eq_removal hch.symm
    simp [node?, hs.state_of_withdrawing stage, hstale, LockState.node?]
  | _ => cases hch

theorem allows (h : Move now c a a' ch) : c.Allows ch := by
  have hclearing : c.Allows (a.clearing c) := by
    unfold clearing
    cases a.stale with
    | none => trivial
    | some node =>
      rcases c.deletion_eq a.client node with hd | hd
      · simp [hd, Coordination.Allows]
      · simp [hd, Coordination.Allows]
  cases h with
  | discarded stage => exact hclearing
  | withdrawn stage => exact hclearing
  | watched stage present => exact present
  | _ => trivial

end Move

end

end Acquisition

end DurableQueue
