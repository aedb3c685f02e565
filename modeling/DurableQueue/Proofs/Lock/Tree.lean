import DurableQueue.Proofs.Lock.NodePath

/-!
What operations do to a coordination service.

An operation of a session that is connected runs, and one that is not is refused and changes nothing
(`connected_cases`). `Coordinator.IsConsistent` is the shape that every service keeps: sorted paths, one
identity for each session, and watches only on nodes that are there. A service whose nodes are lock nodes
keeps the numbers of their paths below its counters too (`Coordinator.IsSound`). `Coordinator.Later` is what
only grows.
-/

namespace DurableQueue.Coordinator

open Acquisition

/-- Whether a session is there and connected. -/
def IsConnected (c : Coordinator) (session : Nat) : Prop :=
  ∃ s, c.sessions[session]? = some s ∧ s.isConnected = true

/-- The service after a node was created. -/
def withNode (c : Coordinator) (identity : Nat) (start : String) : Coordinator :=
  { c with nodes := insert ⟨start ++ Text.padded (c.nextNumber (parentOf start)) 10, identity⟩ c.nodes
           sequences := (parentOf start, c.nextNumber (parentOf start) + 1) ::
             c.sequences.filter fun s => s.1 != parentOf start }

/-- The service after a watch was set. -/
def withWatch (c : Coordinator) (path : String) : Coordinator :=
  { c with watches := c.watches ++ [⟨path, false⟩] }

section

variable {c c' : Coordinator} {session : Nat} {path : String}

/-- An operation of a session either runs under its identity or is refused. -/
theorem connected_cases {α : Type} (c : Coordinator) (session : Nat) (op : Nat → Outcome α) :
    (∃ s, c.sessions[session]? = some s ∧ s.isConnected = true ∧
      c.connected session op = op s.identity) ∨
    (¬ c.IsConnected session ∧ c.connected session op = (.error .connectionLoss, c)) := by
  unfold connected identity
  cases hs : c.sessions[session]? with
  | none =>
    refine .inr ⟨?_, rfl⟩
    rintro ⟨s, hs', -⟩
    rw [hs] at hs'
    cases hs'
  | some s =>
    cases hc : s.isConnected with
    | true => exact .inl ⟨s, rfl, hc, by simp [hc]⟩
    | false =>
      refine .inr ⟨?_, by simp [hc]⟩
      rintro ⟨s', hs', hc'⟩
      rw [hs] at hs'
      cases hs'
      rw [hc] at hc'
      cases hc'

theorem lookup_filter_ne {parent other : String} (h : other ≠ parent) (l : List (String × Nat)) :
    (l.filter fun s => s.1 != parent).lookup other = l.lookup other := by
  induction l with
  | nil => rfl
  | cons first rest ih =>
    obtain ⟨k, v⟩ := first
    by_cases hk : k = parent
    · subst hk
      have hne : (other == k) = false := by simpa using h
      simp [List.lookup_cons, hne, ih]
    · have hk' : (k != parent) = true := by simpa using hk
      simp only [List.filter_cons, hk', ↓reduceIte, List.lookup_cons, ih]

theorem nextNumber_withNode (c : Coordinator) (identity : Nat) (start parent : String) :
    (c.withNode identity start).nextNumber parent =
      if parent = parentOf start then c.nextNumber parent + 1 else c.nextNumber parent := by
  by_cases h : parent = parentOf start
  · subst h
    simp [withNode, nextNumber]
  · have hne : (parent == parentOf start) = false := by simpa using h
    simp only [h, ↓reduceIte]
    simp [withNode, nextNumber, List.lookup_cons, hne, lookup_filter_ne h]

/-- A new node is the only path that comes to the tree. -/
theorem mem_nodes_withNode {identity : Nat} {start : String} {node : LockNode}
    (h : node ∈ (c.withNode identity start).nodes) :
    node = ⟨start ++ Text.padded (c.nextNumber (parentOf start)) 10, identity⟩ ∨ node ∈ c.nodes :=
  mem_of_mem_insert h

theorem hasNode_withNode_self (c : Coordinator) (identity : Nat) (start : String) :
    (c.withNode identity start).hasNode
      (start ++ Text.padded (c.nextNumber (parentOf start)) 10) = true :=
  hasNode_iff.mpr ⟨_, mem_insert_self _ _, rfl⟩

theorem hasNode_withNode {identity : Nat} {start : String} (h : c.hasNode path = true) :
    (c.withNode identity start).hasNode path = true := by
  obtain ⟨node, hmem, rfl⟩ := hasNode_iff.mp h
  by_cases hp : node.path = start ++ Text.padded (c.nextNumber (parentOf start)) 10
  · rw [hp]
    exact hasNode_withNode_self c identity start
  · exact hasNode_iff.mpr ⟨node, (mem_insert_iff hp).mpr hmem, rfl⟩

theorem mem_nodes_removeAll {isGone : LockNode → Bool} {node : LockNode} :
    node ∈ (c.removeAll isGone).nodes ↔ node ∈ c.nodes ∧ isGone node = false := by
  simp [removeAll_nodes]

theorem eq_of_path_eq {nodes : List LockNode} (hs : IsSorted nodes) {a b : LockNode} (ha : a ∈ nodes)
    (hb : b ∈ nodes) (hpath : a.path = b.path) : a = b := by
  induction nodes with
  | nil => cases ha
  | cons first rest ih =>
    obtain ⟨hfirst, hrest⟩ := List.pairwise_cons.mp hs
    rcases List.mem_cons.mp ha with rfl | ha'
    · rcases List.mem_cons.mp hb with rfl | hb'
      · rfl
      · exact absurd (hpath ▸ hfirst b hb') (String.lt_irrefl _)
    · rcases List.mem_cons.mp hb with rfl | hb'
      · exact absurd (hpath ▸ hfirst a ha') (String.lt_irrefl _)
      · exact ih hrest ha' hb'

/-- A node stays unless a node of its path is picked. -/
theorem hasNode_removeAll {isGone : LockNode → Bool} (h : c.hasNode path = true)
    (hkeep : ∀ node ∈ c.nodes, node.path = path → isGone node = false) :
    (c.removeAll isGone).hasNode path = true := by
  obtain ⟨node, hmem, rfl⟩ := hasNode_iff.mp h
  exact hasNode_iff.mpr ⟨node, mem_nodes_removeAll.mpr ⟨hmem, hkeep node hmem rfl⟩, rfl⟩

theorem getElem?_watches_removeAll (c : Coordinator) (isGone : LockNode → Bool) (w : Nat) :
    (c.removeAll isGone).watches[w]? = (c.watches[w]?).map fun x =>
      { x with isFired := x.isFired || ((c.nodes.filter isGone).map LockNode.path).contains x.path } := by
  simp [removeAll]

/-- A watch stays as it is unless a node of its path is picked. -/
theorem watch_removeAll {w : Nat} {x : NodeWatch} {isGone : LockNode → Bool} (hx : c.watches[w]? = some x)
    (hkept : ∀ node ∈ c.nodes, node.path = x.path → isGone node = false) :
    (c.removeAll isGone).watches[w]? = some x := by
  have hstays : ((c.nodes.filter isGone).map LockNode.path).contains x.path = false := by
    refine Bool.eq_false_iff.mpr fun hin => ?_
    obtain ⟨node, hpicked, hpath⟩ := List.mem_map.mp (List.contains_iff_mem.mp hin)
    obtain ⟨hnode, hgone⟩ := List.mem_filter.mp hpicked
    rw [hkept node hnode hpath] at hgone
    cases hgone
  rw [getElem?_watches_removeAll, hx, Option.map_some, hstays, Bool.or_false]

theorem expire_of_none (h : c.sessions[session]? = none) : c.expire session = c := by
  simp [expire, h]

/-- The service after a session expired. -/
theorem expire_of_some {gone : Session} (h : c.sessions[session]? = some gone) :
    c.expire session =
      { c.removeAll (fun node => node.owner == gone.identity) with
        sessions := c.sessions.modify session fun s =>
          { s with identity := c.lastIdentity + 1, isConnected := true }.record .expired
        lastIdentity := c.lastIdentity + 1 } := by
  simp [expire, h, onSession, removeAll]

end

/-- What only grows: watches stay and stay fired, sessions stay and events are added, numbers rise. -/
structure Later (c c' : Coordinator) : Prop where
  watches : ∀ (w : Nat) (x : NodeWatch), c.watches[w]? = some x →
    ∃ x' : NodeWatch, c'.watches[w]? = some x' ∧ x'.path = x.path ∧ (x.isFired = true → x'.isFired = true)
  sessions : ∀ (k : Nat) (s : Session), c.sessions[k]? = some s →
    ∃ (s' : Session) (es : List SessionEvent), c'.sessions[k]? = some s' ∧ s'.events = s.events ++ es
  numbers : ∀ directory, c.nextNumber directory ≤ c'.nextNumber directory

namespace Later

variable {c c' : Coordinator}

theorem refl (c : Coordinator) : c.Later c where
  watches := fun _ x h => ⟨x, h, rfl, id⟩
  sessions := fun _ s h => ⟨s, [], h, by simp⟩
  numbers := fun _ => Nat.le_refl _

theorem withNode (c : Coordinator) (identity : Nat) (start : String) :
    c.Later (c.withNode identity start) where
  watches := (refl c).watches
  sessions := (refl c).sessions
  numbers := by
    intro directory
    rw [nextNumber_withNode]
    split <;> omega

theorem withWatch (c : Coordinator) (path : String) : c.Later (c.withWatch path) where
  watches := by
    intro w x hx
    refine ⟨x, ?_, rfl, id⟩
    rw [Coordinator.withWatch, List.getElem?_append_left (List.getElem?_eq_some_iff.mp hx).1]
    exact hx
  sessions := (refl c).sessions
  numbers := (refl c).numbers

theorem removeAll (c : Coordinator) (isGone : LockNode → Bool) : c.Later (c.removeAll isGone) where
  watches := by
    intro w x hx
    rw [getElem?_watches_removeAll, hx]
    exact ⟨_, rfl, rfl, fun h => by simp [h]⟩
  sessions := (refl c).sessions
  numbers := (refl c).numbers

theorem onSession (c : Coordinator) (session : Nat) {f : Session → Session}
    (hf : ∀ s, ∃ es, (f s).events = s.events ++ es) : c.Later (c.onSession session f) where
  watches := (refl c).watches
  sessions := by
    intro k s hs
    by_cases hk : session = k
    · obtain ⟨es, hes⟩ := hf s
      exact ⟨f s, es, by simp [Coordinator.onSession, hk, hs], hes⟩
    · exact ⟨s, [], by simp [Coordinator.onSession, hk, hs], by simp⟩
  numbers := (refl c).numbers

theorem openSession (c : Coordinator) : c.Later c.openSession.2 where
  watches := (refl c).watches
  sessions := by
    intro k s hs
    refine ⟨s, [], ?_, by simp⟩
    rw [Coordinator.openSession, List.getElem?_append_left (List.getElem?_eq_some_iff.mp hs).1]
    exact hs
  numbers := (refl c).numbers

theorem trans {c₁ c₂ c₃ : Coordinator} (h : c₁.Later c₂) (h' : c₂.Later c₃) : c₁.Later c₃ where
  watches := by
    intro w x hx
    obtain ⟨y, hy, hpath, hfired⟩ := h.watches w x hx
    obtain ⟨z, hz, hpath', hfired'⟩ := h'.watches w y hy
    exact ⟨z, hz, hpath'.trans hpath, fun hf => hfired' (hfired hf)⟩
  sessions := by
    intro k s hs
    obtain ⟨t, es, ht, he⟩ := h.sessions k s hs
    obtain ⟨u, fs, hu, hf⟩ := h'.sessions k t ht
    exact ⟨u, es ++ fs, hu, by rw [hf, he, List.append_assoc]⟩
  numbers := fun d => Nat.le_trans (h.numbers d) (h'.numbers d)

theorem expire (c : Coordinator) (session : Nat) : c.Later (c.expire session) := by
  cases h : c.sessions[session]? with
  | none =>
    rw [expire_of_none h]
    exact refl c
  | some gone =>
    rw [expire_of_some h]
    exact {
      watches := (removeAll c _).watches
      sessions := (onSession c session fun s => ⟨[.expired], rfl⟩).sessions
      numbers := (refl c).numbers }

theorem hasFired {w : Nat} (h : c.Later c') (hw : c.hasFired w = true) : c'.hasFired w = true := by
  unfold Coordinator.hasFired at hw ⊢
  cases hx : c.watches[w]? with
  | none =>
    rw [hx] at hw
    cases hw
  | some x =>
    rw [hx] at hw
    obtain ⟨x', hx', -, hfired⟩ := h.watches w x hx
    rw [hx']
    exact hfired hw

end Later

/-- Paths in order, one identity for each session, and watches only on nodes that are there. -/
structure IsConsistent (c : Coordinator) : Prop where
  sorted : IsSorted c.nodes
  distinct : ∀ (j k : Nat) (s t : Session), c.sessions[j]? = some s → c.sessions[k]? = some t →
    s.identity = t.identity → j = k
  known : ∀ s ∈ c.sessions, s.identity ≤ c.lastIdentity
  watched : ∀ w ∈ c.watches, w.isFired = false → c.hasNode w.path = true

namespace IsConsistent

variable {c : Coordinator}

theorem empty : Coordinator.empty.IsConsistent where
  sorted := .nil
  distinct := by simp [Coordinator.empty]
  known := by simp [Coordinator.empty]
  watched := by simp [Coordinator.empty]

theorem withNode (h : c.IsConsistent) (identity : Nat) (start : String) :
    (c.withNode identity start).IsConsistent where
  sorted := isSorted_insert _ h.sorted
  distinct := h.distinct
  known := h.known
  watched := fun w hw hf => hasNode_withNode (h.watched w hw hf)

theorem removeAll (h : c.IsConsistent) (isGone : LockNode → Bool) :
    (c.removeAll isGone).IsConsistent where
  sorted := isSorted_removeAll c isGone h.sorted
  distinct := h.distinct
  known := h.known
  watched := by
    intro w hw hf
    obtain ⟨x, hx, rfl⟩ := List.mem_map.mp hw
    simp only [Bool.or_eq_false_iff] at hf
    refine hasNode_removeAll (h.watched x hx hf.1) fun node hmem hp => ?_
    refine Bool.eq_false_iff.mpr fun hg => ?_
    have hin : x.path ∈ (c.nodes.filter isGone).map LockNode.path :=
      List.mem_map.mpr ⟨node, List.mem_filter.mpr ⟨hmem, hg⟩, hp⟩
    rw [List.contains_iff_mem.mpr hin] at hf
    cases hf.2

theorem withWatch (h : c.IsConsistent) {path : String} (hp : c.hasNode path = true) :
    (c.withWatch path).IsConsistent where
  sorted := h.sorted
  distinct := h.distinct
  known := h.known
  watched := by
    intro w hw hf
    rcases List.mem_append.mp hw with hw | hw
    · exact h.watched w hw hf
    · rw [List.mem_singleton.mp hw]
      exact hp

/-- A change of a session that keeps its identity. -/
theorem onSession (h : c.IsConsistent) (session : Nat) {f : Session → Session}
    (hf : ∀ s, (f s).identity = s.identity) : (c.onSession session f).IsConsistent := by
  have hsession : ∀ (k : Nat) (s : Session), (c.onSession session f).sessions[k]? = some s →
      ∃ t, c.sessions[k]? = some t ∧ s.identity = t.identity := by
    intro k s hs
    rw [Coordinator.onSession, List.getElem?_modify] at hs
    obtain ⟨t, ht, rfl⟩ := Option.map_eq_some_iff.mp hs
    refine ⟨t, ht, ?_⟩
    split
    · exact hf t
    · rfl
  refine ⟨h.sorted, ?_, ?_, h.watched⟩
  · intro j k s t hs ht heq
    obtain ⟨s', hs', hid⟩ := hsession j s hs
    obtain ⟨t', ht', hid'⟩ := hsession k t ht
    exact h.distinct j k s' t' hs' ht' (hid.symm.trans (heq.trans hid'))
  · intro s hs
    obtain ⟨k, hk⟩ := List.mem_iff_getElem?.mp hs
    obtain ⟨t, ht, hid⟩ := hsession k s hk
    rw [hid]
    exact h.known t (List.mem_of_getElem? ht)

/-- The identity that is given out next is new. -/
theorem identity_ne_next (h : c.IsConsistent) {k : Nat} {s : Session} (hs : c.sessions[k]? = some s) :
    s.identity ≠ c.lastIdentity + 1 := by
  have hle := h.known s (List.mem_of_getElem? hs)
  omega

/-- Sessions of which only one has the identity that is given out next, and the others are as they
were. -/
theorem distinct_of_new (h : c.IsConsistent) {sessions : List Session} {new : Nat}
    (hsessions : ∀ (k : Nat) (s : Session), sessions[k]? = some s →
      c.sessions[k]? = some s ∨ (k = new ∧ s.identity = c.lastIdentity + 1)) :
    (∀ (j k : Nat) (s t : Session), sessions[j]? = some s → sessions[k]? = some t →
      s.identity = t.identity → j = k) ∧
    ∀ s ∈ sessions, s.identity ≤ c.lastIdentity + 1 := by
  refine ⟨?_, ?_⟩
  · intro j k s t hs ht heq
    rcases hsessions j s hs with hs | ⟨rfl, hs⟩
    · rcases hsessions k t ht with ht | ⟨-, ht⟩
      · exact h.distinct j k s t hs ht heq
      · exact absurd (heq.trans ht) (h.identity_ne_next hs)
    · rcases hsessions k t ht with ht | ⟨rfl, -⟩
      · exact absurd (heq.symm.trans hs) (h.identity_ne_next ht)
      · rfl
  · intro s hs
    obtain ⟨k, hk⟩ := List.mem_iff_getElem?.mp hs
    rcases hsessions k s hk with hs | ⟨-, hs⟩
    · exact Nat.le_succ_of_le (h.known s (List.mem_of_getElem? hs))
    · exact Nat.le_of_eq hs

theorem openSession (h : c.IsConsistent) : c.openSession.2.IsConsistent := by
  have hsessions : ∀ (k : Nat) (s : Session), c.openSession.2.sessions[k]? = some s →
      c.sessions[k]? = some s ∨ (k = c.sessions.length ∧ s.identity = c.lastIdentity + 1) := by
    intro k s hs
    rw [Coordinator.openSession, List.getElem?_append] at hs
    split at hs
    · exact .inl hs
    · rw [List.getElem?_singleton] at hs
      split at hs
      · cases hs
        exact .inr ⟨by omega, rfl⟩
      · cases hs
  obtain ⟨hdistinct, hknown⟩ := h.distinct_of_new hsessions
  exact ⟨h.sorted, hdistinct, hknown, h.watched⟩

theorem expire (h : c.IsConsistent) (session : Nat) : (c.expire session).IsConsistent := by
  cases hgone : c.sessions[session]? with
  | none =>
    rw [expire_of_none hgone]
    exact h
  | some gone =>
    have hr := h.removeAll fun node => node.owner == gone.identity
    have hsessions : ∀ (k : Nat) (s : Session), (c.expire session).sessions[k]? = some s →
        c.sessions[k]? = some s ∨ (k = session ∧ s.identity = c.lastIdentity + 1) := by
      intro k s hs
      rw [expire_of_some hgone, List.getElem?_modify] at hs
      obtain ⟨t, ht, rfl⟩ := Option.map_eq_some_iff.mp hs
      split
      · rename_i hk
        exact .inr ⟨hk.symm, rfl⟩
      · exact .inl ht
    obtain ⟨hdistinct, hknown⟩ := h.distinct_of_new hsessions
    rw [expire_of_some hgone] at hdistinct hknown ⊢
    exact ⟨hr.sorted, hdistinct, hknown, hr.watched⟩

end IsConsistent

/-- The shape of a service whose nodes are lock nodes. -/
structure IsSound (c : Coordinator) : Prop where
  sorted : IsSorted c.nodes
  numbered : ∀ node ∈ c.nodes, ∃ directory n,
    node.path = nodePath directory n ∧ n < c.nextNumber directory
  distinct : ∀ (j k : Nat) (s t : Session), c.sessions[j]? = some s → c.sessions[k]? = some t →
    s.identity = t.identity → j = k
  known : ∀ s ∈ c.sessions, s.identity ≤ c.lastIdentity
  watched : ∀ w ∈ c.watches, w.isFired = false → c.hasNode w.path = true

theorem IsConsistent.isSound {c : Coordinator} (h : c.IsConsistent)
    (hnumbered : ∀ node ∈ c.nodes, ∃ directory n,
      node.path = nodePath directory n ∧ n < c.nextNumber directory) : c.IsSound :=
  ⟨h.sorted, hnumbered, h.distinct, h.known, h.watched⟩

namespace IsSound

variable {c : Coordinator}

theorem isConsistent (h : c.IsSound) : c.IsConsistent := ⟨h.sorted, h.distinct, h.known, h.watched⟩

theorem holdsLockNodes (h : c.IsSound) : c.HoldsLockNodes := by
  intro node hmem
  obtain ⟨d, n, hp, -⟩ := h.numbered node hmem
  exact ⟨d, n, hp⟩

/-- The number that is given out next is new. -/
theorem hasNode_next_eq_false (h : c.IsSound) {directory : String} {n : Nat}
    (hn : c.nextNumber directory ≤ n) : c.hasNode (nodePath directory n) = false := by
  refine Bool.eq_false_iff.mpr fun hnode => ?_
  obtain ⟨node, hmem, hp⟩ := hasNode_iff.mp hnode
  obtain ⟨d, m, hp', hm⟩ := h.numbered node hmem
  obtain ⟨rfl, rfl⟩ := nodePath_injective (hp'.symm.trans hp)
  omega

theorem empty : Coordinator.empty.IsSound :=
  IsConsistent.empty.isSound (by simp [Coordinator.empty])

theorem withNode (h : c.IsSound) (identity : Nat) (directory : String) :
    (c.withNode identity (directory ++ "/" ++ nodeStart)).IsSound := by
  refine (h.isConsistent.withNode identity _).isSound fun node hmem => ?_
  rcases mem_nodes_withNode hmem with rfl | hmem
  · refine ⟨directory, c.nextNumber directory, ?_, ?_⟩
    · simp [nodePath]
    · rw [nextNumber_withNode, parentOf_start]
      simp
  · obtain ⟨d, n, hp, hn⟩ := h.numbered node hmem
    exact ⟨d, n, hp, Nat.lt_of_lt_of_le hn ((Later.withNode c _ _).numbers d)⟩

theorem removeAll (h : c.IsSound) (isGone : LockNode → Bool) : (c.removeAll isGone).IsSound :=
  (h.isConsistent.removeAll isGone).isSound fun node hmem =>
    h.numbered node (mem_nodes_removeAll.mp hmem).1

theorem withWatch (h : c.IsSound) {path : String} (hp : c.hasNode path = true) :
    (c.withWatch path).IsSound :=
  (h.isConsistent.withWatch hp).isSound h.numbered

/-- A change of a session that keeps its identity. -/
theorem onSession (h : c.IsSound) (session : Nat) {f : Session → Session}
    (hf : ∀ s, (f s).identity = s.identity) : (c.onSession session f).IsSound :=
  (h.isConsistent.onSession session hf).isSound h.numbered

theorem openSession (h : c.IsSound) : c.openSession.2.IsSound :=
  h.isConsistent.openSession.isSound h.numbered

theorem expire (h : c.IsSound) (session : Nat) : (c.expire session).IsSound := by
  refine (h.isConsistent.expire session).isSound fun node hmem => ?_
  cases hgone : c.sessions[session]? with
  | none =>
    rw [expire_of_none hgone] at hmem ⊢
    exact h.numbered node hmem
  | some gone =>
    rw [expire_of_some hgone] at hmem ⊢
    exact h.numbered node (mem_nodes_removeAll.mp hmem).1

end IsSound

end DurableQueue.Coordinator
