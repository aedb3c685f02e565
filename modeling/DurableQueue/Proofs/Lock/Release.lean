import DurableQueue.Proofs.Lock.Origin

/-!
What the release of a lock tells.

Nobody tells whoever has a lock that the session behind it expired. The release does: it succeeds
only if the node is still there (`release_cases`), and then nobody else had the lock since it was
granted, since the node was the first of its directory all along (`least_while_held`). Of two locks
of one directory that were both released with success, one was released before the other was granted
(`release_certifies`).
-/

namespace DurableQueue.Locker

open Acquisition

/-- Whether the action of a place releases the lock that a call acquired, with success. -/
def ReleasedAt (actions : List LockAction) (k i : Nat) : Prop :=
  actions[k]? = some (.part i .released) ∧
    ∃ lock, ((stateAt actions k).calls[i]?).bind LockCall.lock? = some lock ∧
      ((stateAt actions k).release lock).1 = .ok ()

variable {l : Locker} {actions : List LockAction} {i j k g r : Nat} {node directory : String} {n : Nat}
  {lock : GlobalLock}

/-- A release succeeds if the node is there, and fails if it is gone or the connection is. -/
theorem release_cases {client : Nat} (h : l.IsSound) (hhold : lock.hold = .shared client node) :
    (l.coordination.IsConnected client ∧ l.coordination.coordinator.hasNode node = true ∧
      (l.release lock).1 = .ok ()) ∨
    (l.coordination.IsConnected client ∧ l.coordination.coordinator.hasNode node = false ∧
      (l.release lock).1 = .error (.sessionExpired node)) ∨
    (¬ l.coordination.IsConnected client ∧ (l.release lock).1 = .error .connectionLoss) := by
  unfold release
  rw [hhold]
  rcases Coordination.delete_cases h.service.faultless client node with ⟨hc, heq⟩ | ⟨hc, heq⟩
  · cases hnode : l.coordination.coordinator.hasNode node with
    | true =>
      refine .inl ⟨hc, rfl, ?_⟩
      simp only [heq, hnode]
    | false =>
      refine .inr (.inl ⟨hc, rfl, ?_⟩)
      simp only [heq, hnode]
  · refine .inr (.inr ⟨hc, ?_⟩)
    simp only [heq]

theorem heldNode?_stateAt_of_le {k' : Nat} (h : k ≤ k')
    (hheld : (stateAt actions k).heldNode? i = some node) :
    (stateAt actions k').heldNode? i = some node := by
  induction h with
  | refl => exact hheld
  | @step m hle ih =>
    cases hm : actions[m]? with
    | none =>
      rw [stateAt_succ_of_none hm]
      exact ih
    | some x =>
      rw [stateAt_succ hm]
      exact heldNode?_act (isSound_stateAt actions m) ih x

/-- A call that asked for a lock at some place still does at the end. -/
theorem isFor_run (h : (stateAt actions k).IsFor i directory) : (run actions).IsFor i directory := by
  obtain ⟨call, hcall, hfor⟩ := h
  obtain ⟨call', hcall', hrequest⟩ := exists_call_stateAt (Nat.le_max_left k actions.length) hcall
  rw [stateAt_of_length_le (Nat.le_max_right _ _)] at hcall'
  refine ⟨call', hcall', ?_⟩
  rw [LockCall.IsFor, hrequest]
  exact hfor

/-- A lock that a call has was granted before, and rests on the node by which it was granted. -/
theorem hold_of_grantedAt (hg : GrantedAt actions g i node)
    (hlock : ((stateAt actions k).calls[i]?).bind LockCall.lock? = some lock) :
    g < k ∧ ∃ client, lock.hold = .shared client node := by
  obtain ⟨call, hcall, hlock⟩ := Option.bind_eq_some_iff.mp hlock
  obtain ⟨own, rfl⟩ := (isFaithful_stateAt actions k hcall).carries lock hlock
  have hheld : (stateAt actions k).heldNode? i = some own := by
    rw [heldNode?, hcall, Option.bind_some, LockCall.heldNode?, hlock]
    rfl
  have hlt : g < k := by
    refine Nat.lt_of_not_le fun hle => ?_
    have hearly := heldNode?_stateAt_of_le hle hheld
    rw [hg.1] at hearly
    cases hearly
  have hlate := heldNode?_stateAt_of_le (Nat.succ_le_of_lt hlt) hg.2
  rw [hheld] at hlate
  cases hlate
  exact ⟨hlt, _, rfl⟩

/-- At a release that succeeds the node is there. -/
theorem ReleasedAt.hasNode (hr : ReleasedAt actions r i) (hg : GrantedAt actions g i node) :
    g < r ∧ (stateAt actions r).coordination.coordinator.hasNode node = true := by
  obtain ⟨-, lock, hlock, hok⟩ := hr
  obtain ⟨hlt, client, hhold⟩ := hold_of_grantedAt hg hlock
  refine ⟨hlt, ?_⟩
  rcases release_cases (isSound_stateAt actions r) hhold with ⟨-, hnode, -⟩ | ⟨-, -, herror⟩ | ⟨-, herror⟩
  · exact hnode
  · rw [hok] at herror
    cases herror
  · rw [hok] at herror
    cases herror

/-- A node on which a lock rests does not come back once it is gone. -/
theorem hasNode_of_grantedAt {e : Nat} (hg : GrantedAt actions g i node) (hge : g < e) (her : e ≤ r)
    (hnode : (stateAt actions r).coordination.coordinator.hasNode node = true) :
    (stateAt actions e).coordination.coordinator.hasNode node = true := by
  have hheld := heldNode?_stateAt_of_le (Nat.succ_le_of_lt hge) hg.2
  obtain ⟨call, hcall, hown⟩ := Option.bind_eq_some_iff.mp (node?_of_heldNode? hheld)
  obtain ⟨directory, n, -, rfl, hlt⟩ :=
    ((isSound_stateAt actions e).calls call (List.mem_of_getElem? hcall)).numbered_node hown
  exact hasNode_stateAt_of_le her hlt hnode

/-- The release of a lock whose node is gone fails. -/
theorem release_of_gone {e : Nat} (hg : GrantedAt actions g i node) (hge : g < e) (her : e ≤ r)
    (hgone : (stateAt actions e).coordination.coordinator.hasNode node = false)
    (hlock : ((stateAt actions r).calls[i]?).bind LockCall.lock? = some lock) :
    ∃ client, lock.hold = .shared client node ∧
      ((stateAt actions r).coordination.IsConnected client ∧
          ((stateAt actions r).release lock).1 = .error (.sessionExpired node) ∨
        ¬ (stateAt actions r).coordination.IsConnected client ∧
          ((stateAt actions r).release lock).1 = .error .connectionLoss) := by
  obtain ⟨-, client, hhold⟩ := hold_of_grantedAt hg hlock
  refine ⟨client, hhold, ?_⟩
  rcases release_cases (isSound_stateAt actions r) hhold with ⟨-, hnode, -⟩ | ⟨hc, -, heq⟩ | ⟨hc, heq⟩
  · have hback := hasNode_of_grantedAt hg hge her hnode
    rw [hgone] at hback
    cases hback
  · exact .inl ⟨hc, heq⟩
  · exact .inr ⟨hc, heq⟩

theorem stateAt_take {m : Nat} (h : k ≤ m) : stateAt (actions.take m) k = stateAt actions k := by
  rw [stateAt, stateAt, List.take_take, Nat.min_eq_left h]

/-- An expiry of the session behind a lock takes its node. -/
theorem gone_of_grantedAt_expired {client : Nat} {call : LockCall} (hg : GrantedAt actions g i node)
    (hgk : g < k) (hk : actions[k]? = some (.undergo client .expired))
    (hcall : (stateAt actions k).calls[i]? = some call)
    (hclient : (stateAt actions k).coordination.sessionOf client =
      (stateAt actions k).coordination.sessionOf call.request.client) :
    (stateAt actions (k + 1)).coordination.coordinator.hasNode node = false := by
  have hheld := heldNode?_stateAt_of_le (Nat.succ_le_of_lt hgk) hg.2
  obtain ⟨b, hb, hold, hnew⟩ := exists_created (node?_of_heldNode? hheld)
  have hcreated : CreatedAt (actions.take k) b i node := by
    unfold CreatedAt
    rw [stateAt_take (Nat.le_of_lt hb), stateAt_take (Nat.succ_le_of_lt hb)]
    exact ⟨hold, hnew⟩
  rw [stateAt_succ hk]
  exact gone_of_expired hcreated hcall hclient

theorem eq_of_isLeast {c : Coordinator} {m : Nat} (hn : c.IsLeast directory n)
    (hm : c.IsLeast directory m) : n = m := by
  rcases Nat.lt_trichotomy n m with hlt | heq | hlt
  · have hgone := hm.2 n hlt
    rw [hn.1] at hgone
    cases hgone
  · exact heq
  · have hgone := hn.2 m hlt
    rw [hm.1] at hgone
    cases hgone

section

variable (hbound : (run actions).coordination.coordinator.nextNumber directory ≤ 10 ^ 10)

include hbound

/-- As long as the node of a lock is there, it is the first of its directory. -/
theorem least_while_held (hfor : (run actions).IsFor i directory)
    (hg : GrantedAt actions g i (nodePath directory n)) (hgk : g ≤ k) (hkr : k ≤ r)
    (hnode : (stateAt actions r).coordination.coordinator.hasNode (nodePath directory n) = true) :
    (stateAt actions k).coordination.coordinator.IsLeast directory n := by
  rcases Nat.lt_or_eq_of_le hgk with hlt | rfl
  · have hheld := heldNode?_stateAt_of_le (Nat.succ_le_of_lt hlt) hg.2
    have hp := hasPrecedence_stateAt actions k (nextNumber_stateAt_le_of_run hbound k)
    exact ⟨hasNode_of_grantedAt hg hlt hkr hnode, hp i n hheld⟩
  · obtain ⟨-, a, m, -, -, -, hpath, hleast⟩ := least_of_grantedAt hbound hfor hg
    obtain ⟨-, rfl⟩ := nodePath_injective hpath
    exact hleast

/-- A lock that is released with success was released before the next one was granted. -/
theorem released_before {h : Nat} {node' : String} (hij : i ≠ j) (hi : (run actions).IsFor i directory)
    (hj : (run actions).IsFor j directory) (hg : GrantedAt actions g i node)
    (hh : GrantedAt actions h j node') (hr : ReleasedAt actions r i) (hgh : g ≤ h) : r < h := by
  refine Nat.lt_of_not_le fun hhr => hij ?_
  obtain ⟨n, rfl⟩ := exists_number hi (node?_of_heldNode? hg.2)
  obtain ⟨-, a, m, -, -, -, rfl, hleast'⟩ := least_of_grantedAt hbound hj hh
  -- both numbers are the least one when the second lock is granted
  have hleast := least_while_held hbound hi hg hgh hhr (hr.hasNode hg).2
  obtain rfl := eq_of_isLeast hleast hleast'
  have hheld := heldNode?_stateAt_of_le (Nat.succ_le_succ hgh) hg.2
  obtain ⟨b, -, hcreated⟩ := exists_created (node?_of_heldNode? hheld)
  obtain ⟨b', -, hcreated'⟩ := exists_created (node?_of_heldNode? hh.2)
  exact hcreated.eq hcreated'

end

/-- What a release tells, as long as the directory never had more than 10^10 nodes. Of two locks of
one directory that were released with success, one was released before the listing by which the other
was granted. From its grant to a release with success a node is the least one of its directory. And
once the session behind a lock expires, its node is gone; when a node is gone, every release of its
lock from then on fails, with the loss of the session or of the connection. -/
theorem release_certifies {actions : List LockAction} {directory : String}
    (hbound : (run actions).coordination.coordinator.nextNumber directory ≤ 10 ^ 10) :
    (∀ i j g h r s node node', i ≠ j → (run actions).IsFor i directory →
      (run actions).IsFor j directory → GrantedAt actions g i node → GrantedAt actions h j node' →
      ReleasedAt actions r i → ReleasedAt actions s j → r < h ∨ s < g) ∧
    (∀ i g r n, (run actions).IsFor i directory → GrantedAt actions g i (nodePath directory n) →
      ReleasedAt actions r i → g < r ∧ ∀ k, g ≤ k → k ≤ r →
        (stateAt actions k).coordination.coordinator.IsLeast directory n) ∧
    (∀ i g e client call node, GrantedAt actions g i node → g < e →
      actions[e]? = some (.undergo client .expired) → (stateAt actions e).calls[i]? = some call →
      (stateAt actions e).coordination.sessionOf client =
        (stateAt actions e).coordination.sessionOf call.request.client →
      (stateAt actions (e + 1)).coordination.coordinator.hasNode node = false) ∧
    ∀ i g e r node lock, GrantedAt actions g i node → g < e →
      (stateAt actions e).coordination.coordinator.hasNode node = false → e ≤ r →
      ((stateAt actions r).calls[i]?).bind LockCall.lock? = some lock →
      ∃ client, lock.hold = .shared client node ∧
        ((stateAt actions r).coordination.IsConnected client ∧
            ((stateAt actions r).release lock).1 = .error (.sessionExpired node) ∨
          ¬ (stateAt actions r).coordination.IsConnected client ∧
            ((stateAt actions r).release lock).1 = .error .connectionLoss) := by
  refine ⟨?_, ?_, ?_, ?_⟩
  · intro i j g h r s node node' hij hi hj hg hh hr hs
    rcases Nat.le_total g h with hgh | hhg
    · exact .inl (released_before hbound hij hi hj hg hh hr hgh)
    · exact .inr (released_before hbound hij.symm hj hi hh hg hs hhg)
  · intro i g r n hfor hg hr
    obtain ⟨hlt, hnode⟩ := hr.hasNode hg
    exact ⟨hlt, fun k hgk hkr => least_while_held hbound hfor hg hgk hkr hnode⟩
  · intro i g e client call node hg hge he hcall hclient
    exact gone_of_grantedAt_expired hg hge he hcall hclient
  · intro i g e r node lock hg hge hgone her hlock
    exact release_of_gone hg hge her hgone hlock

/-- The lock is handed over and released, and handed out once more. The session behind the third
lock expires before its release. -/
def lostRun : List LockAction :=
  handedOverRun ++ [.part 1 .released, .start ⟨0, "jobs", "nightly", .ofSeconds 60⟩] ++
    List.replicate 4 (.task (.call 2)) ++ [.undergo 0 .expired, .part 2 .released]

theorem release_certifies_lostRun :
    (run lostRun).coordination.coordinator.nextNumber "/jobs/nightly" ≤ 10 ^ 10 ∧
      ReleasedAt lostRun 13 0 ∧ GrantedAt lostRun 16 1 "/jobs/nightly/lock-0000000001" ∧
      (13 < 16 ∨ 17 < 7) ∧
      (stateAt lostRun 17).coordination.coordinator.IsLeast "/jobs/nightly" 1 ∧
      GrantedAt lostRun 22 2 "/jobs/nightly/lock-0000000002" ∧
      ∃ client,
        (stateAt lostRun 24).coordination.IsConnected client ∧
            ((stateAt lostRun 24).release ⟨"jobs", "nightly",
              .shared 0 "/jobs/nightly/lock-0000000002"⟩).1 =
              .error (.sessionExpired "/jobs/nightly/lock-0000000002") ∨
          ¬ (stateAt lostRun 24).coordination.IsConnected client ∧
            ((stateAt lostRun 24).release ⟨"jobs", "nightly",
              .shared 0 "/jobs/nightly/lock-0000000002"⟩).1 = .error .connectionLoss := by
  have hbound : (run lostRun).coordination.coordinator.nextNumber "/jobs/nightly" ≤ 10 ^ 10 := by
    decide +kernel
  have hstarted : (stateAt lostRun 4).IsFor 0 "/jobs/nightly" := ⟨_, rfl, rfl⟩
  have hstarted' : (stateAt lostRun 4).IsFor 1 "/jobs/nightly" := ⟨_, rfl, rfl⟩
  have hgranted : GrantedAt lostRun 7 0 (nodePath "/jobs/nightly" 0) :=
    ⟨by decide +kernel, by decide +kernel⟩
  have hgranted' : GrantedAt lostRun 16 1 (nodePath "/jobs/nightly" 1) :=
    ⟨by decide +kernel, by decide +kernel⟩
  have hlost : GrantedAt lostRun 22 2 "/jobs/nightly/lock-0000000002" :=
    ⟨by decide +kernel, by decide +kernel⟩
  have hreleased : ReleasedAt lostRun 13 0 :=
    ⟨rfl, ⟨"jobs", "nightly", .shared 0 "/jobs/nightly/lock-0000000000"⟩, by decide +kernel, by decide +kernel⟩
  have hreleased' : ReleasedAt lostRun 17 1 :=
    ⟨rfl, ⟨"jobs", "nightly", .shared 1 "/jobs/nightly/lock-0000000001"⟩, by decide +kernel, by decide +kernel⟩
  obtain ⟨hturn, hleast, hexpired, hgone⟩ := release_certifies hbound
  have hbefore := hturn 0 1 7 16 13 17 _ _ (by decide) (isFor_run hstarted)
    (isFor_run hstarted') hgranted hgranted' hreleased hreleased'
  have hwhile := (hleast 1 16 17 1 (isFor_run hstarted') hgranted' hreleased').2 17 (by decide) (by decide)
  have hthird : (((stateAt lostRun 23).calls[2]?).map fun call => call.request.client) = some 0 := by
    decide +kernel
  obtain ⟨call, hcall, hclient⟩ := Option.map_eq_some_iff.mp hthird
  have hnode := hexpired 2 22 23 0 call _ hlost (by decide) rfl hcall (by rw [hclient])
  obtain ⟨client, -, herror⟩ := hgone 2 22 24 24 _
    ⟨"jobs", "nightly", .shared 0 "/jobs/nightly/lock-0000000002"⟩ hlost (by decide) hnode (by decide)
    (by decide +kernel)
  exact ⟨hbound, hreleased, hgranted', hbefore, hwhile, hlost, client, herror⟩

end DurableQueue.Locker
