import DurableQueue.Proofs.Lock.History

/-!
One holder at a time, in the order in which nodes were created.

A call gets a lock by a listing in which its node stands first. As long as the numbers of a
directory have ten digits, no smaller number has a node then, and none ever has again, since numbers
are not given out twice (`HasPrecedence`). So of all locks that calls acquired in one directory at
most one still has its node, and a lock goes to nodes in the order of their creation
(`granted_in_turn`).
-/

namespace DurableQueue.Locker

open Acquisition

/-- Whether the action of a place makes a call the owner of a node. -/
def CreatedAt (actions : List LockAction) (k i : Nat) (node : String) : Prop :=
  (stateAt actions k).node? i ≠ some node ∧ (stateAt actions (k + 1)).node? i = some node

/-- Whether the action of a place gives a call the lock, by a node. -/
def GrantedAt (actions : List LockAction) (k i : Nat) (node : String) : Prop :=
  (stateAt actions k).heldNode? i = none ∧ (stateAt actions (k + 1)).heldNode? i = some node

/-- Whether no number before the one of an acquired lock has a node in a directory. -/
def HasPrecedence (l : Locker) (directory : String) : Prop :=
  ∀ i n, l.heldNode? i = some (nodePath directory n) →
    ∀ m < n, l.coordination.coordinator.hasNode (nodePath directory m) = false

variable {l : Locker} {x : LockAction} {i : Nat} {directory node : String} {n : Nat}
  {actions : List LockAction} {k k' : Nat}

theorem IsSound.heldNode?_lt (h : l.IsSound) (hheld : l.heldNode? i = some (nodePath directory n)) :
    n < l.coordination.coordinator.nextNumber directory := by
  obtain ⟨call, hcall, hnode⟩ := Option.bind_eq_some_iff.mp hheld
  exact h.node_lt (List.mem_of_getElem? hcall) (LockCall.node?_of_heldNode? hnode)

/-- Whoever gets a lock has the least number of its directory. -/
theorem least_of_grant (h : l.IsSound)
    (hbound : l.coordination.coordinator.nextNumber directory ≤ 10 ^ 10)
    (hold : l.heldNode? i = none) (hnew : (l.act x).heldNode? i = some (nodePath directory n)) :
    x = .task (.call i) ∧ (l.act x).coordination = l.coordination ∧
      (∃ a, l.acquisition? i = some a ∧ a.stage = .listing (nodePath directory n) ∧
        a.directory = directory ∧ l.coordination.IsConnected a.client) ∧
      l.coordination.coordinator.IsLeast directory n := by
  obtain ⟨hx, hsame, a, ha, hstage, hconnected, hfirst⟩ := grant_act h hold hnew
  have hsound := h.contender ha
  have hown := node?_of_waiting (hsound.staged.state_of_listing hstage)
  obtain ⟨m, hpath, hlt⟩ := hsound.numbered _ hown
  obtain ⟨hdirectory, rfl⟩ := nodePath_injective hpath
  rw [← hdirectory, nameOf_nodePath] at hfirst
  rw [← hdirectory] at hlt
  refine ⟨hx, hsame, ⟨a, ha, hstage, hdirectory.symm, hconnected⟩, ?_⟩
  exact Coordinator.least_of_first h.service.service.sorted h.service.service.holdsLockNodes
    (Nat.lt_of_lt_of_le hlt hbound) hfirst

theorem hasPrecedence_act (h : l.IsSound)
    (hbound : l.coordination.coordinator.nextNumber directory ≤ 10 ^ 10)
    (hp : l.HasPrecedence directory) (x : LockAction) : (l.act x).HasPrecedence directory := by
  intro i n hnew m hm
  cases hold : l.heldNode? i with
  | none =>
    obtain ⟨-, hsame, -, hleast⟩ := least_of_grant h hbound hold hnew
    rw [hsame]
    exact hleast.2 m hm
  | some node =>
    have hkept := heldNode?_act h hold x
    rw [hnew] at hkept
    cases hkept
    obtain ⟨ch, hch⟩ := coordination_act h x
    have hlt := Nat.lt_trans hm (h.heldNode?_lt hold)
    refine Bool.eq_false_iff.mpr fun hnode => ?_
    rw [hch] at hnode
    have hback := Coordination.hasNode_of_after hlt hnode
    rw [hp i n hold m hm] at hback
    cases hback

theorem hasPrecedence_stateAt (actions : List LockAction) (k : Nat)
    (hbound : (stateAt actions k).coordination.coordinator.nextNumber directory ≤ 10 ^ 10) :
    (stateAt actions k).HasPrecedence directory := by
  induction k with
  | zero =>
    intro i n hheld
    cases hheld
  | succ k ih =>
    have hle := nextNumber_stateAt_le actions directory (Nat.le_succ k)
    have hp := ih (Nat.le_trans hle hbound)
    cases hk : actions[k]? with
    | none =>
      rw [stateAt_succ_of_none hk]
      exact hp
    | some x =>
      rw [stateAt_succ hk]
      exact hasPrecedence_act (isSound_stateAt actions k) (Nat.le_trans hle hbound) hp x

/-- Of two acquired locks of one directory, both with their nodes, neither has the smaller number. -/
theorem HasPrecedence.eq_of_hasNode {j m : Nat} (hp : l.HasPrecedence directory) (h : l.IsSound)
    (hi : l.heldNode? i = some (nodePath directory n))
    (hj : l.heldNode? j = some (nodePath directory m))
    (hnode : l.coordination.coordinator.hasNode (nodePath directory n) = true)
    (hnode' : l.coordination.coordinator.hasNode (nodePath directory m) = true) : i = j := by
  have hle : m ≤ n := by
    refine Nat.le_of_not_lt fun hlt => ?_
    rw [hp j m hj n hlt] at hnode
    cases hnode
  have hge : n ≤ m := by
    refine Nat.le_of_not_lt fun hlt => ?_
    rw [hp i n hi m hlt] at hnode'
    cases hnode'
  obtain rfl := Nat.le_antisymm hle hge
  obtain ⟨call, hcall, hheld⟩ := Option.bind_eq_some_iff.mp hi
  obtain ⟨call', hcall', hheld'⟩ := Option.bind_eq_some_iff.mp hj
  exact h.apart i j call call' _ hcall hcall' (LockCall.node?_of_heldNode? hheld)
    (LockCall.node?_of_heldNode? hheld')

/-- A node that is created gets the next number of its directory. -/
theorem number_of_created (hc : CreatedAt actions k i (nodePath directory n)) :
    n = (stateAt actions k).coordination.coordinator.nextNumber directory ∧
      (stateAt actions (k + 1)).coordination.coordinator.nextNumber directory = n + 1 := by
  obtain ⟨hold, hnew⟩ := hc
  cases hk : actions[k]? with
  | none =>
    rw [stateAt_succ_of_none hk] at hnew
    exact absurd hnew hold
  | some x =>
    rw [stateAt_succ hk] at hnew ⊢
    obtain ⟨d, hpath, hnext⟩ := created_act (isSound_stateAt actions k) hold hnew
    obtain ⟨rfl, rfl⟩ := nodePath_injective hpath
    exact ⟨rfl, hnext⟩

/-- Nodes that are created later get larger numbers. -/
theorem number_lt_of_created {j b b' m : Nat} (hp : CreatedAt actions b i (nodePath directory n))
    (hq : CreatedAt actions b' j (nodePath directory m)) (hlt : b < b') : n < m := by
  have hp' := (number_of_created hp).2
  have hq' := (number_of_created hq).1
  have hle := nextNumber_stateAt_le actions directory (Nat.succ_le_of_lt hlt)
  rw [hp', ← hq'] at hle
  omega

/-- The nodes of a call have numbers in the directory that it asks for. -/
theorem exists_number (hfor : (run actions).IsFor i directory)
    (hnode : (stateAt actions k).node? i = some node) : ∃ n, node = nodePath directory n := by
  obtain ⟨call, hcall, hnode⟩ := Option.bind_eq_some_iff.mp hnode
  have hsound := (isSound_stateAt actions k).calls call (List.mem_of_getElem? hcall)
  obtain ⟨d, n, hd, hpath, -⟩ := hsound.numbered_node hnode
  cases hd.symm.trans (isFor_of_run hfor hcall)
  exact ⟨n, hpath⟩

theorem node?_of_heldNode? (h : l.heldNode? i = some node) : l.node? i = some node := by
  obtain ⟨call, hcall, hnode⟩ := Option.bind_eq_some_iff.mp h
  exact Option.bind_eq_some_iff.mpr ⟨call, hcall, LockCall.node?_of_heldNode? hnode⟩

theorem lt_nextNumber_of_isLeast (h : l.IsSound)
    (hleast : l.coordination.coordinator.IsLeast directory n) :
    n < l.coordination.coordinator.nextNumber directory := by
  refine Nat.lt_of_not_le fun hle => ?_
  have hnode := hleast.1
  rw [h.service.service.hasNode_next_eq_false hle] at hnode
  cases hnode

section

variable (hbound : (run actions).coordination.coordinator.nextNumber directory ≤ 10 ^ 10)

include hbound

theorem nextNumber_stateAt_le_of_run (k : Nat) :
    (stateAt actions k).coordination.coordinator.nextNumber directory ≤ 10 ^ 10 := by
  have hend : stateAt actions (max k actions.length) = run actions :=
    stateAt_of_length_le (Nat.le_max_right _ _)
  have hle := nextNumber_stateAt_le actions directory (Nat.le_max_left k actions.length)
  rw [hend] at hle
  exact Nat.le_trans hle hbound

/-- A call gets a lock by a listing at which its node has the least number of the directory. -/
theorem least_of_grantedAt (hfor : (run actions).IsFor i directory)
    (hg : GrantedAt actions k i node) :
    actions[k]? = some (.task (.call i)) ∧
      ∃ a n, (stateAt actions k).acquisition? i = some a ∧ a.stage = .listing node ∧
        ((stateAt actions k).coordination.children a.client directory).1 =
          .ok ((stateAt actions k).coordination.coordinator.childNames directory) ∧
        node = nodePath directory n ∧
        (stateAt actions k).coordination.coordinator.IsLeast directory n := by
  obtain ⟨hold, hnew⟩ := hg
  have hsound := isSound_stateAt actions k
  obtain ⟨n, rfl⟩ := exists_number hfor (node?_of_heldNode? hnew)
  cases hk : actions[k]? with
  | none =>
    rw [stateAt_succ_of_none hk, hold] at hnew
    cases hnew
  | some x =>
    rw [stateAt_succ hk] at hnew
    obtain ⟨rfl, -, ⟨a, ha, hstage, -, hconnected⟩, hleast⟩ :=
      least_of_grant hsound (nextNumber_stateAt_le_of_run hbound k) hold hnew
    refine ⟨rfl, a, n, ha, hstage, ?_, rfl, hleast⟩
    rcases Coordination.children_cases hsound.service.faultless a.client directory with
      ⟨-, heq⟩ | ⟨hlost, -⟩
    · rw [heq]
    · exact absurd hconnected hlost

/-- Of two calls for one lock that both have it and their nodes, there is one only. -/
theorem eq_of_heldNode? {j : Nat} {node' : String} (hi : (run actions).IsFor i directory)
    (hj : (run actions).IsFor j directory) (hheld : (stateAt actions k).heldNode? i = some node)
    (hheld' : (stateAt actions k).heldNode? j = some node')
    (hnode : (stateAt actions k).coordination.coordinator.hasNode node = true)
    (hnode' : (stateAt actions k).coordination.coordinator.hasNode node' = true) : i = j := by
  obtain ⟨n, rfl⟩ := exists_number hi (node?_of_heldNode? hheld)
  obtain ⟨m, rfl⟩ := exists_number hj (node?_of_heldNode? hheld')
  have hp := hasPrecedence_stateAt actions k (nextNumber_stateAt_le_of_run hbound k)
  exact hp.eq_of_hasNode (isSound_stateAt actions k) hheld hheld' hnode hnode'

/-- When a node gets the lock, those that were created before it are gone, and had it before. -/
theorem gone_of_grantedAt {j b b' : Nat} {node' : String} (hi : (run actions).IsFor i directory)
    (hj : (run actions).IsFor j directory) (hp : CreatedAt actions b i node)
    (hq : CreatedAt actions b' j node') (hlt : b < b') (hg : GrantedAt actions k j node') :
    (stateAt actions k).coordination.coordinator.hasNode node = false ∧
      ∀ k', GrantedAt actions k' i node → k' < k := by
  obtain ⟨n, rfl⟩ := exists_number hi hp.2
  obtain ⟨-, a, m, -, -, -, rfl, hleast⟩ := least_of_grantedAt hbound hj hg
  have hnm := number_lt_of_created hp hq hlt
  have hgone := hleast.2 n hnm
  refine ⟨hgone, fun k' hg' => Nat.lt_of_not_le fun hle => ?_⟩
  -- had it the lock later, its node would still be there
  obtain ⟨-, a', n', -, -, -, hpath, hleast'⟩ := least_of_grantedAt hbound hi hg'
  obtain ⟨-, rfl⟩ := nodePath_injective hpath
  have hnext := lt_nextNumber_of_isLeast (isSound_stateAt actions k) hleast
  have hnode := hasNode_stateAt_of_le hle (Nat.lt_trans hnm hnext) hleast'.1
  rw [hgone] at hnode
  cases hnode

end

/-- Mutual exclusion and order of a lock, for all calls that ask for it, as long as its directory
never had more than 10^10 nodes. A call gets the lock only by a listing at which its node is in the
tree and no smaller number has one. Of the calls that got it, released or not, at most one has its
node in the tree. And when a node gets it, every node that was created before is gone, and got it
earlier if it ever did. -/
theorem granted_in_turn {actions : List LockAction} {directory : String}
    (hbound : (run actions).coordination.coordinator.nextNumber directory ≤ 10 ^ 10) :
    (∀ k i node, (run actions).IsFor i directory → GrantedAt actions k i node →
      actions[k]? = some (.task (.call i)) ∧
      ∃ a n, (stateAt actions k).acquisition? i = some a ∧ a.stage = .listing node ∧
        ((stateAt actions k).coordination.children a.client directory).1 =
          .ok ((stateAt actions k).coordination.coordinator.childNames directory) ∧
        node = nodePath directory n ∧
        (stateAt actions k).coordination.coordinator.IsLeast directory n) ∧
    (∀ k i j node node', (run actions).IsFor i directory → (run actions).IsFor j directory →
      (stateAt actions k).heldNode? i = some node → (stateAt actions k).heldNode? j = some node' →
      (stateAt actions k).coordination.coordinator.hasNode node = true →
      (stateAt actions k).coordination.coordinator.hasNode node' = true → i = j) ∧
    ∀ b b' k i j node node', (run actions).IsFor i directory → (run actions).IsFor j directory →
      CreatedAt actions b i node → CreatedAt actions b' j node' → b < b' →
      GrantedAt actions k j node' →
      (stateAt actions k).coordination.coordinator.hasNode node = false ∧
        ∀ k', GrantedAt actions k' i node → k' < k := by
  refine ⟨?_, ?_, ?_⟩
  · intro k i node hfor hg
    exact least_of_grantedAt hbound hfor hg
  · intro k i j node node' hi hj hheld hheld' hnode hnode'
    exact eq_of_heldNode? hbound hi hj hheld hheld' hnode hnode'
  · intro b b' k i j node node' hi hj hp hq hlt hg
    exact gone_of_grantedAt hbound hi hj hp hq hlt hg

/-- Two sessions ask for one lock. The first gets it and releases it, and then the second does. -/
def handedOverRun : List LockAction :=
  [.openSession, .openSession, .start ⟨0, "jobs", "nightly", .ofSeconds 60⟩,
    .start ⟨1, "jobs", "nightly", .ofSeconds 60⟩] ++
    List.replicate 4 (.task (.call 0)) ++ List.replicate 5 (.task (.call 1)) ++
    [.part 0 .released, .task (.watch 1 0), .task (.call 1), .task (.call 1)]

theorem granted_in_turn_handedOverRun :
    (run handedOverRun).coordination.coordinator.nextNumber "/jobs/nightly" ≤ 10 ^ 10 ∧
      GrantedAt handedOverRun 16 1 "/jobs/nightly/lock-0000000001" ∧
      (stateAt handedOverRun 16).coordination.coordinator.hasNode
        "/jobs/nightly/lock-0000000000" = false := by
  have hbound : (run handedOverRun).coordination.coordinator.nextNumber "/jobs/nightly" ≤ 10 ^ 10 := by
    decide +kernel
  have hfirst : (run handedOverRun).IsFor 0 "/jobs/nightly" := ⟨_, rfl, rfl⟩
  have hsecond : (run handedOverRun).IsFor 1 "/jobs/nightly" := ⟨_, rfl, rfl⟩
  have hcreated : CreatedAt handedOverRun 6 0 "/jobs/nightly/lock-0000000000" :=
    ⟨by decide +kernel, by decide +kernel⟩
  have hcreated' : CreatedAt handedOverRun 10 1 "/jobs/nightly/lock-0000000001" :=
    ⟨by decide +kernel, by decide +kernel⟩
  have hgranted : GrantedAt handedOverRun 16 1 "/jobs/nightly/lock-0000000001" :=
    ⟨by decide +kernel, by decide +kernel⟩
  obtain ⟨-, -, horder⟩ := granted_in_turn hbound
  have hgone := horder 6 10 16 0 1 _ _ hfirst hsecond hcreated hcreated' (by decide) hgranted
  exact ⟨hbound, hgranted, hgone.1⟩

end DurableQueue.Locker
