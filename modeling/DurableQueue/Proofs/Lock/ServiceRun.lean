import DurableQueue.Proofs.Lock.ServiceChange

/-!
Runs of a coordination service.

A `CoordinatorOp` is anything that is done to a service, and `Coordinator.Effect` lists what it can come
to. `Coordinator.reached` is the service after some operations. Along a run a service stays consistent,
what only grows grows (`later_performAll`), a counter counts the nodes that were created under its parent
(`nextNumber_performAll`), and a session keeps its identity until it expires
(`identity_performAll`, `identity_of_performAll`).
-/

namespace DurableQueue

open Trial

/-- An operation on a coordination service. -/
inductive CoordinatorOp where
  | openSession
  | create (session : Nat) (start : String)
  | children (session : Nat) (parent : String)
  | watch (session : Nat) (path : String)
  | delete (session : Nat) (path : String)
  /-- A session undergoes a change. -/
  | undergo (session : Nat) (change : SessionEvent)
deriving DecidableEq

/-- What an operation answers. -/
inductive CoordinatorAnswer where
  | done
  | opened (session : Nat)
  | created (path : String)
  | names (names : List String)
  | watching (watch : Option Nat)
  | deleted (existed : Bool)
deriving DecidableEq

namespace CoordinatorOp

/-- The session that asks for an operation; none if nobody asks for it. -/
def session? : CoordinatorOp → Option Nat
  | create session _ | children session _ | watch session _ | delete session _ => some session
  | openSession | undergo _ _ => none

def isCreateUnder (parent : String) : CoordinatorOp → Bool
  | create _ start => Coordinator.parentOf start == parent
  | _ => false

end CoordinatorOp

namespace Coordinator

/-- Wraps the answer of an operation. -/
def Outcome.map {α : Type} (f : α → CoordinatorAnswer) (o : Outcome α) : Outcome CoordinatorAnswer :=
  (o.1.map f, o.2)

def perform (c : Coordinator) : CoordinatorOp → Outcome CoordinatorAnswer
  | .openSession => (.ok (.opened c.openSession.1), c.openSession.2)
  | .create session start => (c.create session start).map .created
  | .children session parent => (c.children session parent).map .names
  | .watch session path => (c.watch session path).map .watching
  | .delete session path => (c.delete session path).map .deleted
  | .undergo session change => (.ok .done, LockTrial.changeOf change c session)

/-- The path that a create answers. -/
def nextPath (c : Coordinator) (start : String) : String :=
  start ++ Text.padded (c.nextNumber (parentOf start)) 10

/-- The answer of an operation, and the service it leaves behind. -/
inductive Effect (c : Coordinator) :
    CoordinatorOp → Except LockError CoordinatorAnswer → Coordinator → Prop where
  | opened : Effect c .openSession (.ok (.opened c.sessions.length)) c.openSession.2
  | refused {op : CoordinatorOp} {session : Nat} (asks : op.session? = some session)
    (cut : ¬ c.IsConnected session) : Effect c op (.error .connectionLoss) c
  | created {session : Nat} {s : Session} (start : String) (found : c.sessions[session]? = some s)
    (up : s.isConnected = true) :
    Effect c (.create session start) (.ok (.created (c.nextPath start))) (c.withNode s.identity start)
  | listed {session : Nat} (parent : String) (up : c.IsConnected session) :
    Effect c (.children session parent) (.ok (.names (c.childNames parent))) c
  | watched {session : Nat} {path : String} (up : c.IsConnected session)
    (there : c.hasNode path = true) :
    Effect c (.watch session path) (.ok (.watching (some c.watches.length))) (c.withWatch path)
  | unwatched {session : Nat} {path : String} (up : c.IsConnected session)
    (absent : c.hasNode path = false) : Effect c (.watch session path) (.ok (.watching none)) c
  | deleted {session : Nat} (path : String) (up : c.IsConnected session) :
    Effect c (.delete session path) (.ok (.deleted (c.hasNode path)))
      (c.removeAll fun node => node.path == path)
  | undergone (session : Nat) (change : SessionEvent) :
    Effect c (.undergo session change) (.ok .done) (LockTrial.changeOf change c session)

variable {c : Coordinator} {op : CoordinatorOp}

/-- An operation that a session asks for is refused or runs under the identity of the session. -/
theorem effect_connected {α : Type} {session : Nat} (asks : op.session? = some session)
    (f : α → CoordinatorAnswer) (run : Nat → Outcome α)
    (h : ∀ s, c.sessions[session]? = some s → s.isConnected = true →
      Effect c op ((run s.identity).map f).1 ((run s.identity).map f).2) :
    Effect c op ((c.connected session run).map f).1 ((c.connected session run).map f).2 := by
  rcases connected_cases c session run with ⟨s, hs, hup, heq⟩ | ⟨hcut, heq⟩
  · rw [heq]
    exact h s hs hup
  · rw [heq]
    exact .refused asks hcut

/-- Running an operation has one of the listed effects. -/
theorem effect_perform (c : Coordinator) (op : CoordinatorOp) :
    Effect c op (c.perform op).1 (c.perform op).2 := by
  cases op with
  | openSession => exact .opened
  | create session start => exact effect_connected rfl _ _ fun s hs hup => .created start hs hup
  | children session parent => exact effect_connected rfl _ _ fun s hs hup => .listed parent ⟨s, hs, hup⟩
  | watch session path =>
    refine effect_connected rfl _ _ fun s hs hup => ?_
    cases hnode : c.hasNode path with
    | true => exact .watched ⟨s, hs, hup⟩ hnode
    | false => exact .unwatched ⟨s, hs, hup⟩ hnode
  | delete session path => exact effect_connected rfl _ _ fun s hs hup => .deleted path ⟨s, hs, hup⟩
  | undergo session change => exact .undergone session change

/-! What every operation keeps. -/

theorem later_perform (c : Coordinator) (op : CoordinatorOp) : c.Later (c.perform op).2 := by
  have heffect := effect_perform c op
  generalize (c.perform op).1 = answer, (c.perform op).2 = c' at heffect
  cases heffect with
  | opened => exact .openSession c
  | created start found up => exact .withNode c _ start
  | watched up there => exact .withWatch c _
  | deleted path up => exact .removeAll c _
  | undergone session change => exact .changeOf c change session
  | refused asks cut => exact .refl c
  | listed parent up => exact .refl c
  | unwatched up absent => exact .refl c

theorem IsConsistent.perform (h : c.IsConsistent) (op : CoordinatorOp) :
    (c.perform op).2.IsConsistent := by
  have heffect := effect_perform c op
  generalize (c.perform op).1 = answer, (c.perform op).2 = c' at heffect
  cases heffect with
  | opened => exact h.openSession
  | created start found up => exact h.withNode _ start
  | watched up there => exact h.withWatch there
  | deleted path up => exact h.removeAll _
  | undergone session change => exact h.changeOf change session
  | refused asks cut => exact h
  | listed parent up => exact h
  | unwatched up absent => exact h

theorem sequences_changeOf (c : Coordinator) (change : SessionEvent) (session : Nat) :
    (LockTrial.changeOf change c session).sequences = c.sequences := by
  cases change with
  | disconnected => rfl
  | reconnected => rfl
  | expired =>
    cases hgone : c.sessions[session]? with
    | none => rw [LockTrial.changeOf, expire_of_none hgone]
    | some gone =>
      rw [LockTrial.changeOf, expire_of_some hgone]
      rfl

theorem lastIdentity_le_perform (c : Coordinator) (op : CoordinatorOp) :
    c.lastIdentity ≤ (c.perform op).2.lastIdentity := by
  have heffect := effect_perform c op
  generalize (c.perform op).1 = answer, (c.perform op).2 = c' at heffect
  cases heffect with
  | opened => exact Nat.le_succ _
  | undergone session change =>
    cases change with
    | disconnected => exact Nat.le_refl _
    | reconnected => exact Nat.le_refl _
    | expired =>
      cases hgone : c.sessions[session]? with
      | none => exact Nat.le_of_eq (by rw [LockTrial.changeOf, expire_of_none hgone])
      | some gone =>
        rw [LockTrial.changeOf, expire_of_some hgone]
        exact Nat.le_succ _
  | _ => exact Nat.le_refl _

/-- Only an opening adds a session, and only a change changes one. -/
theorem sessions_perform (c : Coordinator) (op : CoordinatorOp) :
    (c.perform op).2.sessions =
      match op with
      | .openSession => c.sessions ++ [⟨c.lastIdentity + 1, true, []⟩]
      | .undergo session change => c.sessions.modify session (c.changed change)
      | _ => c.sessions := by
  have heffect := effect_perform c op
  generalize (c.perform op).1 = answer, (c.perform op).2 = c' at heffect
  cases heffect with
  | undergone session change => exact sessions_changeOf c change session
  | @refused op session asks cut => cases op <;> first | rfl | cases asks
  | _ => rfl

variable {session j : Nat} {s s' : Session} {start path : String} {node : LockNode}
  {ops : List CoordinatorOp}

/-! What one operation does to nodes, watches and sessions. -/

/-- A create answers the next path and leaves a node of its session there. -/
theorem perform_create_of_eq (h : (c.perform (.create session start)).1 = .ok (.created path)) :
    ∃ s, c.sessions[session]? = some s ∧ path = c.nextPath start ∧
      (c.perform (.create session start)).2 = c.withNode s.identity start := by
  have heffect := effect_perform c (.create session start)
  rw [h] at heffect
  generalize (c.perform (.create session start)).2 = c' at heffect
  cases heffect with
  | created start found up => exact ⟨_, found, rfl, rfl⟩

/-- A watch is a new one, on a node that is there. -/
theorem perform_watch_of_eq {w : Nat}
    (h : (c.perform (.watch session path)).1 = .ok (.watching (some w))) :
    w = c.watches.length ∧ c.hasNode path = true ∧
      (c.perform (.watch session path)).2 = c.withWatch path := by
  have heffect := effect_perform c (.watch session path)
  rw [h] at heffect
  generalize (c.perform (.watch session path)).2 = c' at heffect
  cases heffect with
  | watched up there => exact ⟨rfl, there, rfl⟩

/-- A node that is there was there before, or is created by a session. -/
theorem mem_nodes_of_perform (h : node ∈ (c.perform op).2.nodes) :
    node ∈ c.nodes ∨ ∃ session start s, op = .create session start ∧
      (c.perform op).1 = .ok (.created node.path) ∧ c.sessions[session]? = some s ∧
      node.owner = s.identity := by
  have heffect := effect_perform c op
  generalize (c.perform op).1 = answer, (c.perform op).2 = c' at heffect h
  cases heffect with
  | @created session s start found up =>
    rcases mem_nodes_withNode h with rfl | hold
    · exact .inr ⟨session, start, s, rfl, rfl, found, rfl⟩
    · exact .inl hold
  | deleted path up => exact .inl (mem_nodes_removeAll.mp h).1
  | undergone session change => exact .inl (mem_nodes_changeOf.mp h).1
  | _ => exact .inl h

/-- A node goes only if it is deleted, or if the session that owns it expires. -/
theorem removal_of_perform (h : node ∈ c.nodes) (hgone : (c.perform op).2.hasNode node.path = false) :
    (∃ session, op = .delete session node.path ∧ c.IsConnected session) ∨
      ∃ session s, op = .undergo session .expired ∧ c.sessions[session]? = some s ∧
        node.owner = s.identity := by
  have hthere : c.hasNode node.path = true := hasNode_iff.mpr ⟨node, h, rfl⟩
  have hkept : ∀ c' : Coordinator, node ∈ c'.nodes → c'.hasNode node.path ≠ false := fun c' hmem => by
    rw [hasNode_iff.mpr ⟨node, hmem, rfl⟩]
    nofun
  have heffect := effect_perform c op
  generalize (c.perform op).1 = answer, (c.perform op).2 = c' at heffect hgone
  cases heffect with
  | created start found up =>
    rw [hasNode_withNode hthere] at hgone
    cases hgone
  | @deleted session path up =>
    by_cases hpath : node.path = path
    · exact .inl ⟨session, by rw [hpath], up⟩
    · exact absurd hgone (hkept _ (mem_nodes_removeAll.mpr ⟨h, by simpa using hpath⟩))
  | undergone session change =>
    by_cases hexpires : change = .expired ∧ ∃ s, c.sessions[session]? = some s ∧ node.owner = s.identity
    · obtain ⟨rfl, s, hs, howner⟩ := hexpires
      exact .inr ⟨session, s, rfl, hs, howner⟩
    · exact absurd hgone (hkept _ (mem_nodes_changeOf.mpr ⟨h, hexpires⟩))
  | _ => exact absurd hgone (hkept _ h)

/-- An operation of a session that is not connected is refused and changes nothing. -/
theorem perform_of_cut (hasks : op.session? = some session) (hcut : ¬ c.IsConnected session) :
    (c.perform op).1 = .error .connectionLoss ∧ (c.perform op).2 = c := by
  have heffect := effect_perform c op
  generalize (c.perform op).1 = answer, (c.perform op).2 = c' at heffect ⊢
  cases heffect with
  | refused asks cut => exact ⟨rfl, rfl⟩
  | created start found up =>
    cases hasks
    exact absurd ⟨_, found, up⟩ hcut
  | listed parent up | watched up there | unwatched up absent | deleted path up =>
    cases hasks
    exact absurd up hcut
  | opened | undergone session change => cases hasks

/-- A session stays; only a change of it makes something else of it. -/
theorem session_perform (h : c.sessions[j]? = some s) :
    ∃ s', (c.perform op).2.sessions[j]? = some s' ∧
      (s' = s ∨ ∃ change, op = .undergo j change ∧ s' = c.changed change s) := by
  rw [sessions_perform]
  cases op with
  | openSession =>
    rw [List.getElem?_append_left (List.getElem?_eq_some_iff.mp h).1]
    exact ⟨s, h, .inl rfl⟩
  | undergo session change =>
    simp only [List.getElem?_modify, h]
    by_cases hj : session = j
    · subst hj
      exact ⟨_, rfl, .inr ⟨change, rfl, if_pos rfl⟩⟩
    · exact ⟨_, rfl, .inl (if_neg hj)⟩
  | _ => exact ⟨s, h, .inl rfl⟩

/-- A session that is there after an operation was there before, or was opened under a new identity. -/
theorem session_of_perform (h : (c.perform op).2.sessions[j]? = some s') :
    (∃ s, c.sessions[j]? = some s) ∨ s'.identity = c.lastIdentity + 1 := by
  cases hs : c.sessions[j]? with
  | some s => exact .inl ⟨s, rfl⟩
  | none =>
    right
    rw [sessions_perform] at h
    cases op with
    | openSession =>
      rw [List.getElem?_append_right (List.getElem?_eq_none_iff.mp hs), List.getElem?_singleton] at h
      split at h
      · cases h
        rfl
      · cases h
    | undergo session change =>
      simp only [List.getElem?_modify, hs] at h
      cases h
    | _ =>
      rw [hs] at h
      cases h

/-- The identity of a session is new, or it had it before and did not expire. -/
theorem identity_of_perform (h : (c.perform op).2.sessions[j]? = some s') :
    c.lastIdentity < s'.identity ∨
      (op ≠ .undergo j .expired ∧ ∃ s, c.sessions[j]? = some s ∧ s.identity = s'.identity) := by
  rcases session_of_perform h with ⟨s, hs⟩ | hnew
  · by_cases hexpired : op = .undergo j .expired
    · left
      subst hexpired
      rw [sessions_perform, List.getElem?_modify, hs] at h
      simp only [↓reduceIte, Option.map_eq_map, Option.map_some, Option.some.injEq] at h
      subst h
      exact Nat.lt_succ_self _
    · right
      refine ⟨hexpired, s, hs, ?_⟩
      obtain ⟨t, ht, hkept⟩ := session_perform hs
      obtain rfl : s' = t := Option.some.inj (h.symm.trans ht)
      rcases hkept with rfl | ⟨change, rfl, rfl⟩
      · rfl
      · refine (identity_changed ?_ s).symm
        rintro rfl
        exact hexpired rfl
  · exact .inl (by omega)

/-! Operations one after the other. -/

/-- The service after operations. -/
def performAll (c : Coordinator) (ops : List CoordinatorOp) : Coordinator :=
  ops.foldl (fun c op => (c.perform op).2) c

/-- The service after operations on an empty one. -/
def reached (ops : List CoordinatorOp) : Coordinator := empty.performAll ops

/-- What an operation answers after others. -/
def answerTo (earlier : List CoordinatorOp) (op : CoordinatorOp) : Except LockError CoordinatorAnswer :=
  ((reached earlier).perform op).1

/-- How many nodes are created under a parent. -/
def creations (c : Coordinator) (parent : String) : List CoordinatorOp → Nat
  | [] => 0
  | op :: rest =>
    (if op.isCreateUnder parent = true ∧ (c.perform op).1.isOk = true then 1 else 0) +
      creations (c.perform op).2 parent rest

theorem performAll_cons (c : Coordinator) (op : CoordinatorOp) (ops : List CoordinatorOp) :
    c.performAll (op :: ops) = (c.perform op).2.performAll ops := rfl

theorem performAll_append (c : Coordinator) (ops ops' : List CoordinatorOp) :
    c.performAll (ops ++ ops') = (c.performAll ops).performAll ops' :=
  List.foldl_append

theorem reached_append (ops ops' : List CoordinatorOp) :
    reached (ops ++ ops') = (reached ops).performAll ops' :=
  performAll_append empty ops ops'

theorem reached_append_singleton (ops : List CoordinatorOp) (op : CoordinatorOp) :
    reached (ops ++ [op]) = ((reached ops).perform op).2 :=
  reached_append ops [op]

theorem later_performAll (c : Coordinator) (ops : List CoordinatorOp) : c.Later (c.performAll ops) := by
  induction ops generalizing c with
  | nil => exact .refl c
  | cons op ops ih => exact (later_perform c op).trans (ih _)

theorem IsConsistent.performAll (h : c.IsConsistent) (ops : List CoordinatorOp) :
    (c.performAll ops).IsConsistent := by
  induction ops generalizing c with
  | nil => exact h
  | cons op ops ih => exact ih (h.perform op)

theorem isConsistent_reached (ops : List CoordinatorOp) : (reached ops).IsConsistent :=
  IsConsistent.empty.performAll ops

theorem nextNumber_perform (c : Coordinator) (op : CoordinatorOp) (parent : String) :
    (c.perform op).2.nextNumber parent = c.nextNumber parent +
      if op.isCreateUnder parent = true ∧ (c.perform op).1.isOk = true then 1 else 0 := by
  have heffect := effect_perform c op
  generalize (c.perform op).1 = answer, (c.perform op).2 = c' at heffect
  cases heffect with
  | created start found up =>
    rw [nextNumber_withNode]
    by_cases hparent : parent = parentOf start
    · simp [CoordinatorOp.isCreateUnder, hparent, Except.isOk, Except.toBool]
    · simp [CoordinatorOp.isCreateUnder, hparent, Ne.symm hparent]
  | undergone session change =>
    rw [nextNumber, nextNumber, sequences_changeOf]
    rfl
  | refused asks cut => simp [Except.isOk, Except.toBool]
  | _ => rfl

/-- A counter counts the nodes that were created under its parent. -/
theorem nextNumber_performAll (c : Coordinator) (ops : List CoordinatorOp) (parent : String) :
    (c.performAll ops).nextNumber parent = c.nextNumber parent + c.creations parent ops := by
  induction ops generalizing c with
  | nil => rfl
  | cons op ops ih =>
    rw [performAll_cons, ih, nextNumber_perform, creations]
    omega

theorem nextNumber_reached (ops : List CoordinatorOp) (parent : String) :
    (reached ops).nextNumber parent = empty.creations parent ops := by
  rw [reached, nextNumber_performAll]
  exact Nat.zero_add _

/-- Each operation creates one node at most. -/
theorem creations_le_length (c : Coordinator) (parent : String) (ops : List CoordinatorOp) :
    c.creations parent ops ≤ ops.length := by
  induction ops generalizing c with
  | nil => exact Nat.le_refl _
  | cons op ops ih =>
    have hrest := ih (c.perform op).2
    rw [creations, List.length_cons]
    split <;> omega

/-- A session that does not expire keeps its identity. -/
theorem identity_performAll (h : c.sessions[j]? = some s) (hkept : .undergo j .expired ∉ ops) :
    ∃ s', (c.performAll ops).sessions[j]? = some s' ∧ s'.identity = s.identity := by
  induction ops generalizing c s with
  | nil => exact ⟨s, h, rfl⟩
  | cons op ops ih =>
    rw [List.mem_cons, not_or] at hkept
    obtain ⟨t, ht, hstep⟩ := session_perform h
    obtain ⟨s', hs', hidentity⟩ := ih ht hkept.2
    refine ⟨s', hs', hidentity.trans ?_⟩
    rcases hstep with rfl | ⟨change, rfl, rfl⟩
    · rfl
    · refine identity_changed ?_ s
      rintro rfl
      exact hkept.1 rfl

/-- The identity of a session was given out meanwhile, or it had it before and did not expire. -/
theorem identity_of_performAll (h : (c.performAll ops).sessions[j]? = some s') :
    c.lastIdentity < s'.identity ∨
      (.undergo j .expired ∉ ops ∧ ∃ s, c.sessions[j]? = some s ∧ s.identity = s'.identity) := by
  induction ops generalizing c with
  | nil => exact .inr ⟨List.not_mem_nil, s', h, rfl⟩
  | cons op ops ih =>
    rcases ih h with hnew | ⟨hkept, t, ht, hidentity⟩
    · exact .inl (Nat.lt_of_le_of_lt (lastIdentity_le_perform c op) hnew)
    · rcases identity_of_perform ht with hnew | ⟨hop, s, hs, hsame⟩
      · exact .inl (hidentity ▸ hnew)
      · refine .inr ⟨?_, s, hs, hsame.trans hidentity⟩
        rw [List.mem_cons, not_or]
        exact ⟨Ne.symm hop, hkept⟩

/-- A session that is cut off stays so until it is connected again or expires. -/
theorem isConnected_performAll (h : c.sessions[j]? = some s) (hcut : s.isConnected = false)
    (hstays : ∀ change, .undergo j change ∈ ops → change = .disconnected) :
    ¬ (c.performAll ops).IsConnected j := by
  induction ops generalizing c s with
  | nil =>
    rintro ⟨t, ht, hup⟩
    obtain rfl : t = s := Option.some.inj (ht.symm.trans h)
    rw [hcut] at hup
    cases hup
  | cons op ops ih =>
    obtain ⟨t, ht, hstep⟩ := session_perform h
    refine ih ht ?_ fun change hmem => hstays change (List.mem_cons_of_mem _ hmem)
    rcases hstep with rfl | ⟨change, rfl, rfl⟩
    · exact hcut
    · rw [hstays change List.mem_cons_self]
      rfl

end Coordinator

end DurableQueue
