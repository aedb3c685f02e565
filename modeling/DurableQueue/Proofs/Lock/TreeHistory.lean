import DurableQueue.Proofs.Lock.ServiceRun
import Mathlib.Data.List.Induction

/-!
The tree of a coordination service and the operations that led to it.

As long as the numbers under each parent have ten digits, a path is given out once
(`eq_of_created`), and a watch has fired if and only if its node is gone (`IsTidy.hasFired_eq`). A node is
owned by the session that created it, under the identity it has had since
(`owner_eq_iff_createdSince`). `Coordinator.tree_follows_history` says what that means for a whole run.
-/

namespace DurableQueue.Coordinator

open Trial

variable {c c' : Coordinator} {op : CoordinatorOp} {ops earlier later : List CoordinatorOp}
  {session : Nat} {start path : String} {node : LockNode}

/-- All numbers that were given out have ten digits. -/
def Fits (c : Coordinator) : Prop := ∀ parent, c.nextNumber parent ≤ 10 ^ 10

theorem Fits.of_later (h : c'.Fits) (hlater : c.Later c') : c.Fits :=
  fun parent => Nat.le_trans (hlater.numbers parent) (h parent)

/-- A path whose number was given out under its parent. -/
def HasGivenOut (c : Coordinator) (path : String) : Prop :=
  ∃ start n, path = start ++ Text.padded n 10 ∧ n < c.nextNumber (parentOf start)

theorem HasGivenOut.of_later (h : c.HasGivenOut path) (hlater : c.Later c') : c'.HasGivenOut path := by
  obtain ⟨start, n, hpath, hn⟩ := h
  exact ⟨start, n, hpath, Nat.lt_of_lt_of_le hn (hlater.numbers _)⟩

/-- What is given out next was not given out before. -/
theorem HasGivenOut.ne_nextPath (h : c.HasGivenOut path) (hfits : c.Fits)
    (hnext : c.nextNumber (parentOf start) < 10 ^ 10) : path ≠ c.nextPath start := by
  rintro rfl
  obtain ⟨start', n, hpath, hn⟩ := h
  have hn10 := Nat.lt_of_lt_of_le hn (hfits _)
  obtain ⟨rfl, hsame⟩ := Text.append_padded_injective (by decide) hnext hn10 hpath
  omega

/-- Only paths that were given out are in the tree or watched, and the nodes of fired watches are gone. -/
structure IsTidy (c : Coordinator) : Prop where
  numbered : ∀ node ∈ c.nodes, c.HasGivenOut node.path
  watched : ∀ w ∈ c.watches, c.HasGivenOut w.path
  fired : ∀ w ∈ c.watches, w.isFired = true → c.hasNode w.path = false

namespace IsTidy

theorem empty : Coordinator.empty.IsTidy := ⟨by simp [Coordinator.empty], by simp [Coordinator.empty],
  by simp [Coordinator.empty]⟩

theorem withNode (h : c.IsTidy) (identity : Nat) (start : String)
    (hfits : (c.withNode identity start).Fits) : (c.withNode identity start).IsTidy := by
  have hlater := Later.withNode c identity start
  have hnext := nextNumber_withNode c identity start (parentOf start)
  rw [if_pos rfl] at hnext
  refine ⟨fun node hmem => ?_, fun w hw => (h.watched w hw).of_later hlater, fun w hw hfired => ?_⟩
  · rcases mem_nodes_withNode hmem with rfl | hold
    · exact ⟨start, _, rfl, by omega⟩
    · exact (h.numbered node hold).of_later hlater
  · have hgone := h.fired w hw hfired
    refine Bool.eq_false_iff.mpr fun hnode => ?_
    obtain ⟨node, hmem, hpath⟩ := hasNode_iff.mp hnode
    rcases mem_nodes_withNode hmem with rfl | hold
    · have hlast := hfits (parentOf start)
      exact (h.watched w hw).ne_nextPath (hfits.of_later hlater) (by omega) hpath.symm
    · rw [hasNode_iff.mpr ⟨node, hold, hpath⟩] at hgone
      cases hgone

theorem removeAll (h : c.IsTidy) (hs : IsSorted c.nodes) (isGone : LockNode → Bool) :
    (c.removeAll isGone).IsTidy := by
  refine ⟨fun node hmem => h.numbered node (mem_nodes_removeAll.mp hmem).1, fun w hw => ?_,
    fun w hw hfired => ?_⟩
  · obtain ⟨x, hx, rfl⟩ := List.mem_map.mp hw
    exact h.watched x hx
  · obtain ⟨x, hx, rfl⟩ := List.mem_map.mp hw
    refine Bool.eq_false_iff.mpr fun hnode => ?_
    obtain ⟨node, hmem, hpath⟩ := hasNode_iff.mp hnode
    obtain ⟨hmem, hkept⟩ := mem_nodes_removeAll.mp hmem
    rcases Bool.or_eq_true_iff.mp hfired with hold | hnew
    · have hgone := h.fired x hx hold
      rw [hasNode_iff.mpr ⟨node, hmem, hpath⟩] at hgone
      cases hgone
    · -- the node that was picked has the path of the one that is there
      obtain ⟨picked, hpicked, hsame⟩ := List.mem_map.mp (List.contains_iff_mem.mp hnew)
      obtain ⟨hold, hgone⟩ := List.mem_filter.mp hpicked
      rw [eq_of_path_eq hs hmem hold (hpath.trans hsame.symm), hgone] at hkept
      cases hkept

theorem withWatch (h : c.IsTidy) (hnode : c.hasNode path = true) : (c.withWatch path).IsTidy := by
  refine ⟨h.numbered, fun w hw => ?_, fun w hw hfired => ?_⟩
  · rcases List.mem_append.mp hw with hw | hw
    · exact h.watched w hw
    · obtain ⟨node, hmem, hpath⟩ := hasNode_iff.mp hnode
      rw [List.mem_singleton.mp hw, ← hpath]
      exact h.numbered node hmem
  · rcases List.mem_append.mp hw with hw | hw
    · exact h.fired w hw hfired
    · rw [List.mem_singleton.mp hw] at hfired
      cases hfired

theorem changeOf (h : c.IsTidy) (hs : IsSorted c.nodes) (change : SessionEvent) (session : Nat) :
    (LockTrial.changeOf change c session).IsTidy := by
  cases change with
  | disconnected => exact ⟨h.numbered, h.watched, h.fired⟩
  | reconnected => exact ⟨h.numbered, h.watched, h.fired⟩
  | expired =>
    cases hgone : c.sessions[session]? with
    | none =>
      rw [LockTrial.changeOf, expire_of_none hgone]
      exact h
    | some gone =>
      have hr := h.removeAll hs fun node => node.owner == gone.identity
      rw [LockTrial.changeOf, expire_of_some hgone]
      exact ⟨hr.numbered, hr.watched, hr.fired⟩

theorem perform (h : c.IsTidy) (hs : IsSorted c.nodes) (hfits : (c.perform op).2.Fits) :
    (c.perform op).2.IsTidy := by
  have heffect := effect_perform c op
  generalize (c.perform op).1 = answer, (c.perform op).2 = c' at heffect hfits
  cases heffect with
  | opened => exact ⟨h.numbered, h.watched, h.fired⟩
  | created start found up => exact h.withNode _ start hfits
  | watched up there => exact h.withWatch there
  | deleted path up => exact h.removeAll hs _
  | undergone session change => exact h.changeOf hs change session
  | refused asks cut => exact h
  | listed parent up => exact h
  | unwatched up absent => exact h

/-- A watch has fired if and only if its node is gone. -/
theorem hasFired_eq (h : c.IsTidy) (hc : c.IsConsistent) {w : Nat} {x : NodeWatch}
    (hx : c.watches[w]? = some x) : c.hasFired w = !c.hasNode x.path := by
  have hmem := List.mem_of_getElem? hx
  rw [hasFired, hx]
  cases hfired : x.isFired with
  | true => simp [hfired, h.fired x hmem hfired]
  | false => simp [hfired, hc.watched x hmem hfired]

end IsTidy

theorem isTidy_reached (hfits : (reached ops).Fits) : (reached ops).IsTidy := by
  induction ops using List.reverseRecOn with
  | nil => exact .empty
  | append_singleton ops op ih =>
    rw [reached_append_singleton] at hfits ⊢
    exact (ih (hfits.of_later (later_perform _ op))).perform (isConsistent_reached ops).sorted hfits

section History

/-- A create that is among the operations gave out the next number, and the counter is beyond it. -/
theorem number_of_created (hops : ops = earlier ++ .create session start :: later)
    (h : answerTo earlier (.create session start) = .ok (.created path)) :
    path = (reached earlier).nextPath start ∧
      (reached earlier).nextNumber (parentOf start) < (reached ops).nextNumber (parentOf start) := by
  obtain ⟨s, hs, hpath, hafter⟩ := perform_create_of_eq h
  refine ⟨hpath, ?_⟩
  have hgrows := (later_performAll ((reached earlier).perform (.create session start)).2 later).numbers
    (parentOf start)
  rw [← performAll_cons, ← reached_append, ← hops, hafter, nextNumber_withNode, if_pos rfl] at hgrows
  omega

/-- No path is given out twice. -/
theorem not_created_again (hfits : (reached ops).Fits) {middle : List CoordinatorOp} {session' : Nat}
    {start' : String}
    (hops : ops = earlier ++ .create session start :: (middle ++ .create session' start' :: later))
    (h : answerTo earlier (.create session start) = .ok (.created path)) :
    answerTo (earlier ++ .create session start :: middle) (.create session' start') ≠
      .ok (.created path) := by
  intro hagain
  have hops' : ops = (earlier ++ .create session start :: middle) ++ .create session' start' :: later := by
    simp [hops]
  obtain ⟨hpath, hnumber⟩ : path = (reached earlier).nextPath start ∧
      (reached earlier).nextNumber (parentOf start) <
        (reached (earlier ++ .create session start :: middle)).nextNumber (parentOf start) :=
    number_of_created rfl h
  obtain ⟨hpath', hnumber'⟩ := number_of_created hops' hagain
  have hlast := hfits (parentOf start')
  have hmiddle : (reached (earlier ++ .create session start :: middle)).Fits := by
    rw [hops', reached_append] at hfits
    exact hfits.of_later (later_performAll _ _)
  have hfirst := hmiddle (parentOf start)
  obtain ⟨rfl, hsame⟩ := Text.append_padded_injective (by decide) (by omega) (by omega)
    (hpath.symm.trans hpath')
  omega

/-- The create that gave out a path is the only one among the operations. -/
theorem eq_of_created (hfits : (reached ops).Fits) {earlier' later' : List CoordinatorOp}
    {session' : Nat} {start' : String} (hops : ops = earlier ++ .create session start :: later)
    (hops' : ops = earlier' ++ .create session' start' :: later')
    (h : answerTo earlier (.create session start) = .ok (.created path))
    (h' : answerTo earlier' (.create session' start') = .ok (.created path)) :
    earlier = earlier' ∧ session = session' := by
  rcases List.append_eq_append_iff.mp (hops.symm.trans hops') with
    ⟨between, hearlier, hlater⟩ | ⟨between, hearlier, hlater⟩
  · cases between with
    | nil =>
      cases hlater
      exact ⟨by simp [hearlier], rfl⟩
    | cons op middle =>
      obtain ⟨rfl, rfl⟩ := List.cons.inj hlater
      rw [hearlier] at h'
      exact absurd h' (not_created_again hfits hops h)
  · cases between with
    | nil =>
      cases hlater
      exact ⟨by simp [hearlier], rfl⟩
    | cons op middle =>
      obtain ⟨rfl, rfl⟩ := List.cons.inj hlater
      rw [hearlier] at h
      exact absurd h (not_created_again hfits hops' h')

/-- Every node was created by a session among the operations, under its identity of then. -/
theorem exists_created (h : node ∈ (reached ops).nodes) :
    ∃ earlier session start later s, ops = earlier ++ .create session start :: later ∧
      answerTo earlier (.create session start) = .ok (.created node.path) ∧
      (reached earlier).sessions[session]? = some s ∧ node.owner = s.identity := by
  induction ops using List.reverseRecOn with
  | nil => cases h
  | append_singleton ops op ih =>
    rw [reached_append_singleton] at h
    rcases mem_nodes_of_perform h with hold | ⟨session, start, s, rfl, hanswer, hs, howner⟩
    · obtain ⟨earlier, session, start, later, s, rfl, hcreated⟩ := ih hold
      exact ⟨earlier, session, start, later ++ [op], s, by simp, hcreated⟩
    · exact ⟨ops, session, start, [], s, rfl, hanswer, hs, howner⟩

/-- A session created a node after it was opened or expired for the last time. -/
def CreatedSince (ops : List CoordinatorOp) (session : Nat) (path : String) : Prop :=
  ∃ earlier start since, ops = earlier ++ .create session start :: since ∧
    answerTo earlier (.create session start) = .ok (.created path) ∧
    .undergo session .expired ∉ since

/-- A session owns the nodes that it created under its identity. -/
theorem owner_eq_iff_createdSince (hfits : (reached ops).Fits) {s : Session}
    (hs : (reached ops).sessions[session]? = some s) (hnode : node ∈ (reached ops).nodes) :
    node.owner = s.identity ↔ CreatedSince ops session node.path := by
  obtain ⟨earlier, creator, start, later, t, hops, hcreated, ht, howner⟩ := exists_created hnode
  constructor
  · intro hsame
    have hidentity : s.identity = t.identity := hsame.symm.trans howner
    rw [hops, reached_append] at hs
    have hearlier := isConsistent_reached earlier
    rcases identity_of_performAll hs with hnew | ⟨hkept, u, hu, hu'⟩
    · have hknown := hearlier.known t (List.mem_of_getElem? ht)
      omega
    · obtain rfl := hearlier.distinct _ _ _ _ hu ht (hu'.trans hidentity)
      exact ⟨earlier, start, later, hops, hcreated, fun hmem => hkept (List.mem_cons_of_mem _ hmem)⟩
  · rintro ⟨earlier', start', since, hops', hcreated', hkept⟩
    obtain ⟨rfl, rfl⟩ := eq_of_created hfits hops hops' hcreated hcreated'
    have hstays : CoordinatorOp.undergo creator .expired ∉ .create creator start' :: since := by
      simp [hkept]
    obtain ⟨s', hs', hidentity⟩ := identity_performAll ht hstays
    rw [← reached_append, ← hops', hs] at hs'
    rw [howner, Option.some.inj hs', hidentity]

/-- A watch fires over an operation. -/
def Fires (earlier : List CoordinatorOp) (op : CoordinatorOp) (w : Nat) : Prop :=
  (reached earlier).hasFired w = false ∧ (reached (earlier ++ [op])).hasFired w = true

/-- The node of a path goes over an operation. -/
def Removes (earlier : List CoordinatorOp) (op : CoordinatorOp) (path : String) : Prop :=
  (reached earlier).hasNode path = true ∧ (reached (earlier ++ [op])).hasNode path = false

/-- What the expiry of a session does after other operations: it takes the nodes of the session, and
touches neither other nodes, nor counters, nor the watches and sessions of others. -/
structure ExpiresAlone (earlier : List CoordinatorOp) (session : Nat) (c' : Coordinator) : Prop where
  nodes : ∀ node, node ∈ c'.nodes ↔
    node ∈ (reached earlier).nodes ∧ ¬ CreatedSince earlier session node.path
  counters : ∀ parent, c'.nextNumber parent = (reached earlier).nextNumber parent
  watches : ∀ (w : Nat) (x : NodeWatch), (reached earlier).watches[w]? = some x →
    ¬ CreatedSince earlier session x.path → c'.watches[w]? = some x
  sessions : ∀ k ≠ session, c'.sessions[k]? = (reached earlier).sessions[k]?

/-- What the tree after a run has to do with the operations of the run. -/
structure FollowsHistory (ops : List CoordinatorOp) : Prop where
  watched : ∀ w ∈ (reached ops).watches, w.isFired = false → (reached ops).hasNode w.path = true
  owned : ∀ node ∈ (reached ops).nodes, ∃ earlier session start later s,
    ops = earlier ++ .create session start :: later ∧
      answerTo earlier (.create session start) = .ok (.created node.path) ∧
      (reached earlier).sessions[session]? = some s ∧ node.owner = s.identity
  numbered : ∀ earlier session start later path, ops = earlier ++ .create session start :: later →
    answerTo earlier (.create session start) = .ok (.created path) →
    path = start ++ Text.padded ((reached earlier).nextNumber (parentOf start)) 10 ∧
      (reached earlier).nextNumber (parentOf start) < (reached ops).nextNumber (parentOf start)
  fresh : ∀ earlier session start middle session' start' later path,
    ops = earlier ++ .create session start :: (middle ++ .create session' start' :: later) →
    answerTo earlier (.create session start) = .ok (.created path) →
    answerTo (earlier ++ .create session start :: middle) (.create session' start') ≠ .ok (.created path)
  /-- Watches are set on nodes that are there, and have not fired then. -/
  armed : ∀ earlier session path w later, ops = earlier ++ .watch session path :: later →
    answerTo earlier (.watch session path) = .ok (.watching (some w)) →
    (reached earlier).watches.length = w ∧ (reached earlier).hasNode path = true ∧
      (reached (earlier ++ [.watch session path])).hasFired w = false
  /-- From then on they fire over just the operation over which the node goes. -/
  fires : ∀ earlier session path w middle op later,
    ops = earlier ++ .watch session path :: (middle ++ op :: later) →
    answerTo earlier (.watch session path) = .ok (.watching (some w)) →
    (Fires (earlier ++ .watch session path :: middle) op w ↔
      Removes (earlier ++ .watch session path :: middle) op path)
  firesOnce : ∀ earlier op middle op' later w, ops = earlier ++ op :: (middle ++ op' :: later) →
    Fires earlier op w → ¬ Fires (earlier ++ op :: middle) op' w
  removed : ∀ earlier op later path, ops = earlier ++ op :: later → Removes earlier op path →
    (∃ session, op = .delete session path ∧ (reached earlier).IsConnected session) ∨
      ∃ session, op = .undergo session .expired ∧ CreatedSince earlier session path
  expires : ∀ earlier session later, ops = earlier ++ .undergo session .expired :: later →
    session < (reached earlier).sessions.length →
    ExpiresAlone earlier session (reached (earlier ++ [.undergo session .expired]))
  /-- A session that was cut off, and was not connected again and did not expire, is refused. -/
  refused : ∀ earlier session middle op later,
    ops = earlier ++ .undergo session .disconnected :: (middle ++ op :: later) →
    session < (reached earlier).sessions.length →
    (∀ change, .undergo session change ∈ middle → change = .disconnected) →
    op.session? = some session →
    answerTo (earlier ++ .undergo session .disconnected :: middle) op = .error .connectionLoss ∧
      reached (earlier ++ .undergo session .disconnected :: (middle ++ [op])) =
        reached (earlier ++ .undergo session .disconnected :: middle)

theorem fits_of_creations (hfew : ∀ parent, empty.creations parent ops ≤ 10 ^ 10) : (reached ops).Fits :=
  fun parent => by
    rw [nextNumber_reached]
    exact hfew parent

theorem Fits.of_append (h : (reached (ops ++ later)).Fits) : (reached ops).Fits := by
  rw [reached_append] at h
  exact h.of_later (later_performAll _ _)

/-- A watch that was answered has fired since if and only if its node is gone. -/
theorem hasFired_reached (hfits : (reached ops).Fits) {w : Nat}
    (hops : ops = earlier ++ .watch session path :: later)
    (h : answerTo earlier (.watch session path) = .ok (.watching (some w))) :
    (reached ops).hasFired w = !(reached ops).hasNode path := by
  obtain ⟨rfl, hnode, hafter⟩ := perform_watch_of_eq h
  have hnew : ((reached earlier).perform (.watch session path)).2.watches[(reached earlier).watches.length]? =
      some ⟨path, false⟩ := by
    rw [hafter, withWatch, List.getElem?_append_right (Nat.le_refl _), Nat.sub_self]
    rfl
  obtain ⟨x, hx, rfl, -⟩ := (later_performAll _ later).watches _ _ hnew
  rw [← performAll_cons, ← reached_append, ← hops] at hx
  exact (isTidy_reached hfits).hasFired_eq (isConsistent_reached ops) hx

theorem expiresAlone_of_fits (hfits : (reached earlier).Fits)
    (hsession : session < (reached earlier).sessions.length) :
    ExpiresAlone earlier session (reached (earlier ++ [.undergo session .expired])) := by
  obtain ⟨s, hs⟩ : ∃ s, (reached earlier).sessions[session]? = some s :=
    ⟨_, List.getElem?_eq_getElem hsession⟩
  have hafter : reached (earlier ++ [.undergo session .expired]) = (reached earlier).expire session :=
    reached_append_singleton _ _
  have hexpire := expire_of_some hs
  have howned : ∀ node ∈ (reached earlier).nodes,
      (∃ t, (reached earlier).sessions[session]? = some t ∧ node.owner = t.identity) ↔
        CreatedSince earlier session node.path := by
    intro node hnode
    rw [← owner_eq_iff_createdSince hfits hs hnode]
    simp [hs]
  rw [hafter]
  refine ⟨fun node => ?_, fun parent => ?_, fun w x hx hothers => ?_, fun k hk => ?_⟩
  · have hchange : LockTrial.changeOf .expired (reached earlier) session = (reached earlier).expire session :=
      rfl
    rw [← hchange, mem_nodes_changeOf]
    refine and_congr_right fun hnode => not_congr ?_
    simpa using howned node hnode
  · rw [hexpire]
    rfl
  · rw [hexpire]
    refine watch_removeAll hx fun node hnode hpath => Bool.eq_false_iff.mpr fun hgone => hothers ?_
    rw [← hpath, ← howned node hnode]
    exact ⟨s, hs, beq_iff_eq.mp hgone⟩
  · rw [hexpire]
    simp [hk.symm]

theorem not_isConnected_of_disconnected {middle : List CoordinatorOp}
    (hsession : session < (reached earlier).sessions.length)
    (hstays : ∀ change, .undergo session change ∈ middle → change = .disconnected) :
    ¬ (reached (earlier ++ .undergo session .disconnected :: middle)).IsConnected session := by
  obtain ⟨s, hs⟩ : ∃ s, (reached earlier).sessions[session]? = some s :=
    ⟨_, List.getElem?_eq_getElem hsession⟩
  have hafter : ((reached earlier).perform (.undergo session .disconnected)).2.sessions[session]? =
      some ((reached earlier).changed .disconnected s) := by
    rw [sessions_perform, List.getElem?_modify, hs]
    simp
  rw [reached_append, performAll_cons]
  exact isConnected_performAll hafter rfl hstays

/-- The tree after any run follows the operations of the run, as long as the numbers of the nodes have ten
digits. -/
theorem tree_follows_history (ops : List CoordinatorOp)
    (hfew : ∀ parent, empty.creations parent ops ≤ 10 ^ 10) : FollowsHistory ops where
  watched := (isConsistent_reached ops).watched
  owned _ hnode := exists_created hnode
  numbered _ _ _ _ _ hops h := number_of_created hops h
  fresh _ _ _ _ _ _ _ _ hops h := not_created_again (fits_of_creations hfew) hops h
  armed earlier session path w later hops h := by
    obtain ⟨rfl, hnode, hafter⟩ := perform_watch_of_eq h
    refine ⟨rfl, hnode, ?_⟩
    rw [reached_append_singleton, hafter, hasFired, withWatch,
      List.getElem?_append_right (Nat.le_refl _), Nat.sub_self]
    rfl
  fires earlier session path w middle op later hops h := by
    have hbefore : ops = (earlier ++ .watch session path :: middle) ++ (op :: later) := by simp [hops]
    have hafter : ops = (earlier ++ .watch session path :: (middle ++ [op])) ++ later := by simp [hops]
    have hfits := fits_of_creations hfew
    have hfired := hasFired_reached (hbefore ▸ hfits).of_append rfl h
    have hfired' := hasFired_reached (hafter ▸ hfits).of_append rfl h
    rw [← List.cons_append, ← List.append_assoc] at hfired'
    rw [Fires, Removes, hfired, hfired']
    simp
  firesOnce earlier op middle op' later w hops hfires hagain := by
    have hlater := (later_performAll (reached (earlier ++ [op])) middle).hasFired hfires.2
    rw [← reached_append, List.append_assoc, List.singleton_append, hagain.1] at hlater
    cases hlater
  removed earlier op later path hops hremoves := by
    obtain ⟨node, hnode, rfl⟩ := hasNode_iff.mp hremoves.1
    have hgone := hremoves.2
    rw [reached_append_singleton] at hgone
    refine (removal_of_perform hnode hgone).imp id ?_
    rintro ⟨session, s, rfl, hs, howner⟩
    have hfits := (hops ▸ fits_of_creations hfew).of_append
    exact ⟨session, rfl, (owner_eq_iff_createdSince hfits hs hnode).mp howner⟩
  expires earlier session later hops hsession :=
    expiresAlone_of_fits (hops ▸ fits_of_creations hfew).of_append hsession
  refused earlier session middle op later hops hsession hstays hasks := by
    have hcut := not_isConnected_of_disconnected hsession hstays
    obtain ⟨hanswer, hafter⟩ := perform_of_cut hasks hcut
    refine ⟨hanswer, ?_⟩
    rw [← List.cons_append, ← List.append_assoc, reached_append_singleton, hafter]

end History

/-- A session watches the node of another, which is cut off and then expires. -/
def expiryRun : List CoordinatorOp :=
  [.openSession, .openSession, .create 0 "/s/k-", .create 1 "/s/k-", .watch 1 "/s/k-0000000000",
    .undergo 0 .disconnected, .create 0 "/s/k-", .undergo 0 .expired, .create 0 "/s/k-"]

/-- The watch fires over the expiry; the other node stays, and the next one has a number of its own. -/
theorem tree_follows_history_expiryRun :
    (∀ parent, empty.creations parent expiryRun ≤ 10 ^ 10) ∧
    (reached expiryRun).nodes.map LockNode.path = ["/s/k-0000000001", "/s/k-0000000002"] ∧
    Fires (expiryRun.take 7) (.undergo 0 .expired) 0 ∧
    answerTo (expiryRun.take 6) (.create 0 "/s/k-") = .error .connectionLoss ∧
    FollowsHistory expiryRun := by
  have hfew : ∀ parent, empty.creations parent expiryRun ≤ 10 ^ 10 := fun parent =>
    Nat.le_trans (creations_le_length empty parent expiryRun) (by decide)
  have hhistory := tree_follows_history expiryRun hfew
  refine ⟨hfew, by decide +kernel, ?_, ?_, hhistory⟩
  · have hremoves : Removes (expiryRun.take 7) (.undergo 0 .expired) "/s/k-0000000000" :=
      ⟨by decide +kernel, by decide +kernel⟩
    have hwatch : answerTo (expiryRun.take 4) (.watch 1 "/s/k-0000000000") = .ok (.watching (some 0)) := by
      decide +kernel
    exact (hhistory.fires (expiryRun.take 4) 1 _ 0 [.undergo 0 .disconnected, .create 0 "/s/k-"] _ _ rfl
      hwatch).mpr hremoves
  · exact (hhistory.refused (expiryRun.take 5) 0 [] _ _ rfl (by decide +kernel) (by simp) rfl).1

end DurableQueue.Coordinator
