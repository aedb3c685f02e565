import DurableQueue.Proofs.Lock.OneDirectory
import DurableQueue.Proofs.Lock.Run

/-!
Contenders and the part of the service that concerns them.

All nodes that a contender knows are in the directory of its lock (`Acquisition.IsAtHome`). So a contender in
another directory leaves the part of this one as it is (`Acquisition.keeps_step?`), and a contender in this
directory takes in the part the steps that it takes in the whole (`Acquisition.Alike.step?`).
-/

namespace DurableQueue

open Coordination Coordinator

/-- The paths that a contender needs for what it does next. -/
def AcquisitionStage.nodes : AcquisitionStage → List String
  | .listing node | .abandoning node _ | .over (.ok (some node)) => [node]
  | .watching node predecessor => [node, predecessor]
  | _ => []

theorem LockState.node?_next {s : LockState} {signal : LockSignal} {node : String}
    (h : (s.next signal).node? = some node) : s.node? = some node ∨ signal = .created node := by
  cases s <;> cases signal <;> simp_all [next, node?]

namespace Acquisition

/-- Every node that a contender knows is in its directory. -/
structure IsAtHome (a : Acquisition) : Prop where
  state : ∀ node, a.state.node? = some node → parentOf node = a.directory
  stale : ∀ node, a.stale = some node → parentOf node = a.directory
  stage : ∀ node ∈ a.stage.nodes, parentOf node = a.directory
  signals : ∀ node, .created node ∈ a.signals → parentOf node = a.directory

section

variable {a a' : Acquisition} {c c' : Coordination} {d : String} {now : Nat} {signal : LockSignal}

theorem isAtHome_begin_ (c : Coordination) (client : Nat) (directory : String) (deadline : Nat) :
    (begin_ c client directory deadline).IsAtHome where
  state := nofun
  stale := nofun
  stage := nofun
  signals := nofun

theorem IsAtHome.apply (h : a.IsAtHome) (signal : LockSignal)
    (hsignal : ∀ node, signal = .created node → parentOf node = a.directory) :
    (a.apply signal).IsAtHome where
  state node hnode := (LockState.node?_next hnode).elim (h.state node) (hsignal node)
  stale node hnode := by
    unfold Acquisition.apply at hnode
    simp only at hnode
    split at hnode
    · cases hstate : a.state.node? with
      | none =>
        rw [hstate] at hnode
        exact h.stale node hnode
      | some n =>
        rw [hstate] at hnode
        exact h.state node (hstate.trans hnode)
    · exact h.stale node hnode
  stage := h.stage
  signals := h.signals

theorem nodes_stageOf {s : LockState} {node : String} (h : node ∈ (stageOf s).nodes) :
    s.node? = some node := by
  cases s with
  | unlocked => cases h
  | waiting n => rw [List.mem_singleton.mp h]; rfl
  | held n => rw [List.mem_singleton.mp h]; rfl

theorem IsAtHome.advance (h : a.IsAtHome) (signal : LockSignal)
    (hsignal : ∀ node, signal = .created node → parentOf node = a.directory) :
    (a.advance signal).IsAtHome :=
  have happlied := h.apply signal hsignal
  { happlied with stage := fun node hnode => happlied.state node (nodes_stageOf hnode) }

/-- A contender that goes on with what it knows. -/
theorem IsAtHome.goesOn (h : a.IsAtHome) (stage : AcquisitionStage)
    (hstage : ∀ node ∈ stage.nodes, parentOf node = a.directory) : { a with stage }.IsAtHome where
  state := h.state
  stale := h.stale
  stage := hstage
  signals := h.signals

theorem IsAtHome.cleared (h : a.IsAtHome) (stage : AcquisitionStage) (hstage : stage.nodes = []) :
    { a with stale := none, stage }.IsAtHome where
  state := h.state
  stale := nofun
  stage node hnode := by
    rw [hstage] at hnode
    cases hnode
  signals := h.signals

/-- A contender that takes up the first signal. -/
theorem IsAtHome.rest (h : a.IsAtHome) {rest : List LockSignal} (hsignals : a.signals = signal :: rest) :
    { a with signals := rest }.IsAtHome where
  state := h.state
  stale := h.stale
  stage := h.stage
  signals node hnode := h.signals node (hsignals ▸ List.mem_cons_of_mem _ hnode)

/-- A contender that hears something of its listeners. -/
theorem IsAtHome.hears (h : a.IsAtHome) (signal : LockSignal) (hsignal : ∀ node, signal ≠ .created node)
    (watches : List Nat) (seenEvents : Nat) :
    { a with watches, seenEvents, signals := a.signals ++ [signal] }.IsAtHome where
  state := h.state
  stale := h.stale
  stage := h.stage
  signals node hnode := by
    rcases List.mem_append.mp hnode with hnode | hnode
    · exact h.signals node hnode
    · exact absurd (List.mem_singleton.mp hnode).symm (hsignal node)

theorem exists_after_discard (hf : c.IsFaultless) (a : Acquisition) (node : Option String) :
    ∃ ch, a.discard node c = c.after ch := by
  cases node with
  | none => exact ⟨.none, rfl⟩
  | some node => exact ⟨_, delete_eq_after hf a.client node⟩

theorem only_discard (hf : c.IsFaultless) {node : Option String} (hne : ∀ n, node = some n → parentOf n ≠ d) :
    (a.discard node c).only d = c.only d := by
  cases node with
  | none => rfl
  | some node => exact only_delete hf a.client (hne node rfl)

/-- What a step keeps: the directory and what is in it, and whatever other directories hold. -/
structure Keeps (c : Coordination) (a : Acquisition) (r : Acquisition × Coordination) : Prop where
  directory : r.1.directory = a.directory
  home : r.1.IsAtHome
  after : ∃ ch, r.2 = c.after ch
  elsewhere : ∀ d ≠ a.directory, r.2.only d = c.only d

theorem Keeps.same (h : a'.IsAtHome) (hdirectory : a'.directory = a.directory) : Keeps c a (a', c) :=
  ⟨hdirectory, h, ⟨.none, rfl⟩, fun _ _ => rfl⟩

theorem keeps_step? (hf : c.IsFaultless) (h : a.IsAtHome) {r : Acquisition × Coordination}
    (hstep : a.step? now c = some r) : Keeps c a r := by
  unfold step? at hstep
  cases hstage : a.stage with
  | discarding =>
    simp only [hstage] at hstep
    cases hstep
    exact ⟨rfl, h.cleared _ rfl, exists_after_discard hf a _, fun d hd =>
      only_discard hf fun n hn => h.stale n hn ▸ hd.symm⟩
  | creating =>
    simp only [hstage] at hstep
    have helsewhere : ∀ d ≠ a.directory,
        (c.create a.client (a.directory ++ "/" ++ nodeStart)).2.only d = c.only d :=
      fun d hd => only_create hf a.client hd.symm
    rcases create_cases hf a.client a.directory with ⟨s, -, -, heq⟩ | ⟨-, heq⟩
    · rw [heq] at hstep helsewhere
      cases hstep
      refine ⟨rfl, h.advance _ fun node hnode => ?_, ⟨.node s.identity a.directory, rfl⟩, helsewhere⟩
      cases hnode
      exact parentOf_nodePath _ _
    · rw [heq] at hstep
      cases hstep
      exact .same (h.goesOn _ nofun) rfl
  | listing node =>
    have hnode := h.stage
    rw [hstage] at hnode
    simp only [hstage] at hstep
    rcases children_cases hf a.client a.directory with ⟨-, heq⟩ | ⟨-, heq⟩
    · rw [heq] at hstep
      simp only at hstep
      split at hstep
      · cases hstep
        exact .same (h.advance _ nofun) rfl
      · cases hstep
        exact .same (h.advance _ nofun) rfl
      · rename_i name hposition
        cases hstep
        obtain ⟨n, -, hchild⟩ := List.mem_filterMap.mp (NodePosition.mem_of_of_eq_behind hposition).2
        have hpredecessor : parentOf (a.directory ++ "/" ++ name) = a.directory :=
          parentOf_child (childName?_eq_some_iff.mp hchild).1
        refine .same (h.goesOn _ ?_) rfl
        exact List.forall_mem_cons.mpr ⟨hnode node List.mem_cons_self,
          List.forall_mem_singleton.mpr hpredecessor⟩
    · rw [heq] at hstep
      cases hstep
      exact .same (h.goesOn _ nofun) rfl
  | watching node predecessor =>
    have hnode := h.stage
    rw [hstage] at hnode
    have hpredecessor := hnode predecessor (List.mem_cons_of_mem _ List.mem_cons_self)
    simp only [hstage] at hstep
    have helsewhere : ∀ d ≠ a.directory, (c.watch a.client predecessor).2.only d = c.only d :=
      fun d hd => only_watch hf a.client (hpredecessor ▸ hd.symm)
    rcases watch_cases hf a.client predecessor with ⟨-, heq⟩ | ⟨-, heq⟩ | ⟨-, heq⟩
    · rw [heq] at hstep helsewhere
      cases hstep
      exact ⟨rfl, ⟨h.state, h.stale, nofun, h.signals⟩, ⟨.watch predecessor, rfl⟩, helsewhere⟩
    · rw [heq] at hstep
      cases hstep
      have hheard := (h.goesOn .awaiting nofun).hears .predecessorDeleted nofun a.watches a.seenEvents
      exact .same hheard rfl
    · rw [heq] at hstep
      cases hstep
      exact .same (h.goesOn _ nofun) rfl
  | awaiting =>
    simp only [hstage] at hstep
    split at hstep
    · rename_i rest hsignals
      cases hstep
      have hrest := (h.rest hsignals).apply .sessionLost nofun
      rw [hstage] at hrest
      exact .same hrest rfl
    · rename_i rest hsignals
      cases hstep
      have hrest := (h.rest hsignals).apply .timedOut nofun
      exact .same (hrest.goesOn .withdrawing nofun) rfl
    · rename_i signal rest _ _ hsignals
      cases hstep
      have hrest := (h.rest hsignals).advance signal fun node hnode =>
        h.signals node (by rw [hsignals, hnode]; exact List.mem_cons_self)
      exact .same hrest rfl
    · split at hstep
      · cases hstep
        exact .same ((h.apply .timedOut nofun).goesOn .withdrawing nofun) rfl
      · cases hstep
  | withdrawing =>
    simp only [hstage] at hstep
    cases hstep
    exact ⟨rfl, h.cleared _ rfl, exists_after_discard hf a _, fun d hd =>
      only_discard hf fun n hn => h.stale n hn ▸ hd.symm⟩
  | abandoning node error =>
    have hnode := h.stage
    rw [hstage] at hnode
    simp only [hstage] at hstep
    cases hstep
    refine ⟨rfl, h.goesOn _ nofun, exists_after_discard hf a (some node),
      fun d hd => only_discard hf fun n hn => ?_⟩
    cases hn
    exact hnode node List.mem_cons_self ▸ hd.symm
  | «over» result =>
    simp only [hstage] at hstep
    cases hstep

/-- A contender and the same one with other numbers for its watches. -/
def Alike (W : Nat → Nat → Prop) (a a' : Acquisition) : Prop :=
  ∃ ws, List.Forall₂ W a.watches ws ∧ a' = { a with watches := ws }

theorem Alike.imp {V W : Nat → Nat → Prop} (h : a.Alike V a') (hVW : ∀ w w', V w w' → W w w') :
    a.Alike W a' := by
  obtain ⟨ws, hws, rfl⟩ := h
  exact ⟨ws, hws.imp fun w w' => hVW w w', rfl⟩

theorem Alike.later {c' : Coordination} (h : a.Alike (c.coordinator.Watched d) a')
    (hlater : c.coordinator.Later c'.coordinator) :
    a.Alike (c'.coordinator.Watched d) a' := h.imp fun _ _ hw => hw.later hlater

theorem Alike.exists_of_mem {W : Nat → Nat → Prop} (h : a.Alike W a') {w : Nat} (hw : w ∈ a.watches) :
    ∃ w', W w w' := by
  obtain ⟨ws, hws, -⟩ := h
  obtain ⟨i, hi, rfl⟩ := List.mem_iff_getElem.mp hw
  exact ⟨_, hws.get hi (hws.length_eq ▸ hi)⟩

/-- What a step gives in the whole, and in the part of a directory. -/
def StepsAlike (d : String) (r r' : Acquisition × Coordination) : Prop :=
  r.1.Alike (r.2.coordinator.Watched d) r'.1 ∧ r'.2 = r.2.only d

/-- In its directory a contender takes the same steps. -/
theorem Alike.step? (hf : c.IsFaultless) (hs : IsSorted c.coordinator.nodes) (h : a.IsAtHome)
    (ha : a.directory = d)
    (halike : a.Alike (c.coordinator.Watched d) a') :
    Option.Rel (StepsAlike d) (a.step? now c) (a'.step? now (c.only d)) := by
  obtain ⟨ws, hws, rfl⟩ := halike
  subst ha
  have hafter (ch : ServiceChange) :
      List.Forall₂ ((c.after ch).coordinator.Watched a.directory) a.watches ws :=
    hws.imp fun _ _ hw => hw.later (coordinator_later_after c ch)
  have hdiscard (node : Option String) (hnode : ∀ n, node = some n → parentOf n = a.directory) :
      List.Forall₂ ((a.discard node c).coordinator.Watched a.directory) a.watches ws ∧
        a.discard node (c.only a.directory) = (a.discard node c).only a.directory := by
    obtain ⟨ch, hch⟩ := exists_after_discard hf a node
    refine ⟨hch ▸ hafter ch, ?_⟩
    cases node with
    | none => rfl
    | some node => exact congrArg Prod.snd (delete_only hf a.client (hnode node rfl))
  have hstay {b : Acquisition} (hb : b.watches = a.watches) :
      StepsAlike a.directory (b, c) ({ b with watches := ws }, c.only a.directory) :=
    ⟨⟨ws, hb ▸ hws, rfl⟩, rfl⟩
  unfold Acquisition.step?
  cases hstage : a.stage with
  | discarding =>
    obtain ⟨hwatches, hpart⟩ := hdiscard a.stale h.stale
    exact .some ⟨⟨ws, hwatches, rfl⟩, hpart⟩
  | creating =>
    have hpart := create_only (d := a.directory) hf hs a.client
    rcases create_cases hf a.client a.directory with ⟨s, -, -, heq⟩ | ⟨-, heq⟩
    · rw [heq] at hpart
      simp only [heq, hpart]
      exact .some ⟨⟨ws, hafter _, rfl⟩, rfl⟩
    · rw [heq] at hpart
      simp only [heq, hpart]
      exact .some (hstay rfl)
  | listing node =>
    have hpart := children_only (d := a.directory) hf a.client
    rcases children_cases hf a.client a.directory with ⟨-, heq⟩ | ⟨-, heq⟩
    · rw [heq] at hpart
      simp only [heq, hpart]
      cases NodePosition.of (nameOf node) (c.coordinator.childNames a.directory) <;> exact .some (hstay rfl)
    · rw [heq] at hpart
      simp only [heq, hpart]
      exact .some (hstay rfl)
  | watching node predecessor =>
    have hnode := h.stage
    rw [hstage] at hnode
    have hpredecessor := hnode predecessor (List.mem_cons_of_mem _ List.mem_cons_self)
    rcases watch_only hf a.client hpredecessor with ⟨heq, hpart⟩ | ⟨heq, hpart⟩ | ⟨heq, hpart⟩
    · simp only [heq, hpart]
      have hnew := Watched.withWatch c.coordinator hpredecessor
      exact .some ⟨⟨_, List.rel_append (hafter (.watch predecessor)) (.cons hnew .nil), rfl⟩, rfl⟩
    · simp only [heq, hpart]
      exact .some (hstay rfl)
    · simp only [heq, hpart]
      exact .some (hstay rfl)
  | awaiting =>
    cases hsignals : a.signals with
    | nil =>
      simp only
      split
      · exact .some ⟨⟨ws, hws, by simp only [Acquisition.apply, hsignals]⟩, rfl⟩
      · exact .none
    | cons signal rest => cases signal <;> exact .some (hstay rfl)
  | withdrawing =>
    obtain ⟨hwatches, hpart⟩ := hdiscard a.stale h.stale
    exact .some ⟨⟨ws, hwatches, rfl⟩, hpart⟩
  | abandoning node error =>
    have hnode := h.stage
    rw [hstage] at hnode
    obtain ⟨hwatches, hpart⟩ := hdiscard (some node) fun n hn => by
      cases hn
      exact hnode node List.mem_cons_self
    exact .some ⟨⟨ws, hwatches, rfl⟩, hpart⟩
  | «over» result => exact .none

theorem Alike.hearEvent? (halike : a.Alike (c.coordinator.Watched d) a') :
    Option.Rel (Alike (c.coordinator.Watched d)) (a.hearEvent? c) (a'.hearEvent? (c.only d)) := by
  obtain ⟨ws, hws, rfl⟩ := halike
  have hsession : (c.only d).coordinator.sessions[(c.only d).sessionOf a.client]? =
      c.coordinator.sessions[c.sessionOf a.client]? := rfl
  have hlistens : { a with watches := ws }.listens = a.listens := rfl
  unfold Acquisition.hearEvent?
  rw [hlistens, hsession]
  split
  · cases c.coordinator.sessions[c.sessionOf a.client]? with
    | none => exact .none
    | some s =>
      simp only [bind, Option.bind]
      cases s.receive? a.seenEvents with
      | none => exact .none
      | some r => exact .some ⟨ws, hws, rfl⟩
  · exact .none

theorem Alike.hearWatch? {w w' : Nat} (hw : c.coordinator.Watched d w w')
    (halike : a.Alike (c.coordinator.Watched d) a') :
    Option.Rel (Alike (c.coordinator.Watched d)) (a.hearWatch? w c) (a'.hearWatch? w' (c.only d)) := by
  obtain ⟨ws, hws, rfl⟩ := halike
  have hone := isOneToOne_watched c.coordinator d
  have hlistens : { a with watches := ws }.listens = a.listens := rfl
  have hfired : (c.only d).coordinator.hasFired w' = c.coordinator.hasFired w := hw.hasFired
  unfold Acquisition.hearWatch?
  rw [hlistens, hfired, hone.contains_eq hws hw]
  split
  · exact .some ⟨ws.erase w', hone.erase hws hw, rfl⟩
  · exact .none

theorem Alike.timeOut? {W : Nat → Nat → Prop} (halike : a.Alike W a') :
    Option.Rel (Alike W) (a.timeOut? now) (a'.timeOut? now) := by
  obtain ⟨ws, hws, rfl⟩ := halike
  unfold Acquisition.timeOut?
  cases hstage : a.stage with
  | awaiting =>
    simp only
    split
    · exact .some ⟨ws, hws, by simp only [Acquisition.apply, hstage]⟩
    · exact .none
  | _ => exact .none

theorem signalOf_ne_created (r : Reception) (node : String) : signalOf r ≠ .created node := by
  cases r with
  | event e => cases e <;> exact nofun
  | missed count => exact nofun

theorem IsAtHome.hearEvent? (h : a.IsAtHome) (hstep : a.hearEvent? c = some a') :
    a'.IsAtHome ∧ a'.directory = a.directory := by
  unfold Acquisition.hearEvent? at hstep
  split at hstep
  · obtain ⟨s, -, hstep⟩ := Option.bind_eq_some_iff.mp hstep
    obtain ⟨⟨r, seen⟩, -, hstep⟩ := Option.bind_eq_some_iff.mp hstep
    cases hstep
    exact ⟨h.hears _ (signalOf_ne_created r) a.watches seen, rfl⟩
  · cases hstep

theorem IsAtHome.hearWatch? {w : Nat} (h : a.IsAtHome) (hstep : a.hearWatch? w c = some a') :
    a'.IsAtHome ∧ a'.directory = a.directory := by
  unfold Acquisition.hearWatch? at hstep
  split at hstep
  · cases hstep
    exact ⟨h.hears .predecessorDeleted nofun _ a.seenEvents, rfl⟩
  · cases hstep

theorem IsAtHome.timeOut? (h : a.IsAtHome) (hstep : a.timeOut? now = some a') :
    a'.IsAtHome ∧ a'.directory = a.directory := by
  obtain ⟨-, -, rfl⟩ := timeOut?_eq_some hstep
  exact ⟨(h.apply .timedOut nofun).goesOn .withdrawing nofun, rfl⟩

end

end Acquisition

end DurableQueue
