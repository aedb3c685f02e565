import DurableQueue.Proofs.Dispatch.TaskTurn

/-!
Turns of a bus.

Whatever happens in normal operation is a turn of one task, with all the claims that wait anywhere;
other tasks keep their attempts, unless a step of this one makes workers stop (`Bus.turns_act`).
-/

namespace DurableQueue

/-- The elements of a list together with what is made of one of them, apart from the others. -/
theorem perm_flatMap_of_getElem? {α β : Type} (f : α → List β) {l : List α} {i : Nat} {x : α}
    (hi : l[i]? = some x) : (l.flatMap f).Perm (f x ++ (l.eraseIdx i).flatMap f) := by
  obtain ⟨hlt, rfl⟩ := List.getElem?_eq_some_iff.mp hi
  exact (List.getElem_cons_eraseIdx_perm hlt).symm.flatMap_right f

theorem perm_flatMap_set {α β : Type} (f : α → List β) {l : List α} {i : Nat} {x : α}
    (hi : l[i]? = some x) (y : α) : ((l.set i y).flatMap f).Perm (f y ++ (l.eraseIdx i).flatMap f) := by
  obtain ⟨hlt, -⟩ := List.getElem?_eq_some_iff.mp hi
  exact (List.set_perm_cons_eraseIdx hlt y).flatMap_right f

namespace Bus

variable {b b' : Bus} {t : BusTask} {events : List AttemptEvent} {aborts : Prop}

/-- Every claim that waits for an attempt. -/
def waiting (b : Bus) : List Entry := b.nodes.flatMap Node.waiting ++ b.calls.flatMap Call.waiting

/-- What a task of a bus has a hand in. -/
def share (b : Bus) (t : BusTask) : Share := ⟨b.waiting, t.attempt? b, b.hub.store⟩

/-- A bus of normal dispatchers. -/
structure IsNormal (b : Bus) : Prop where
  nodes : ∀ n ∈ b.nodes, n.IsNormal b.hub
  unbroken : b.hub.breakdowns.update = 0

theorem IsNormal.node (hb : b.IsNormal) {i : Nat} {n : Node} (hi : b.nodes[i]? = some n) :
    n.IsNormal b.hub :=
  hb.nodes n (List.mem_of_getElem? hi)

/-- Normal dispatchers are normal on another hub whose updates do not break down. -/
theorem IsNormal.nodes_of_eq (hb : b.IsNormal) {h' : Hub}
    (hbreak : h'.breakdowns.update = b.hub.breakdowns.update) : ∀ n ∈ b.nodes, n.IsNormal h' :=
  fun n hn => (hb.nodes n hn).of_eq rfl rfl rfl hbreak

/-- A turn of a task. Others keep their attempts, unless it makes workers stop. -/
structure Turns (t : BusTask) (b : Bus) (events : List AttemptEvent) (b' : Bus) : Prop where
  turn : Turn t (b.share t) events (b'.share t)
  others : ∀ t' ≠ t, t'.attempt? b' = t'.attempt? b ∨ t.aborts b = true ∧ t'.attempt? b' = none
  normal : b'.IsNormal

/-- What happens without any news of attempts. They are kept, unless workers are made to stop. -/
structure Rests (aborts : Prop) (b b' : Bus) : Prop where
  waiting : b'.waiting.Subperm b.waiting
  attempts : ∀ t : BusTask, t.attempt? b' = t.attempt? b ∨ aborts ∧ t.attempt? b' = none
  goesOn : b.hub.store.GoesOn b'.hub.store
  normal : b'.IsNormal

theorem Rests.turns (h : b.Rests (t.aborts b = true) b') (hnone : t.attempt? b = none) :
    b.Turns t [] b' where
  turn := .quiet h.waiting (.inl ((h.attempts t).elim id fun heq => heq.2.trans hnone.symm)) h.goesOn
  others t' _ := h.attempts t'
  normal := h.normal

theorem Turns.refl (hb : b.IsNormal) (t : BusTask) : b.Turns t [] b :=
  ⟨.quiet (List.Subperm.refl _) (.inl rfl) (.refl _), fun _ _ => .inl rfl, hb⟩

theorem Rests.trans {b'' : Bus} (h : b.Rests aborts b') (h' : b'.Rests aborts b'') :
    b.Rests aborts b'' where
  waiting := h'.waiting.trans h.waiting
  attempts t := by
    rcases h'.attempts t with heq | hnone
    · rw [heq]
      exact h.attempts t
    · exact .inr hnone
  goesOn := h.goesOn.trans h'.goesOn
  normal := h'.normal

theorem Rests.refl (hb : b.IsNormal) : b.Rests aborts b :=
  ⟨List.Subperm.refl _, fun _ => .inl rfl, .refl _, hb⟩

section Node

variable {i : Nat} {n n' : Node} {h' : Hub} {calls : List Call}

theorem isNormal_set (hb : b.IsNormal) (hn : n'.IsNormal h') (i : Nat) (calls : List Call) :
    IsNormal { b with hub := h', nodes := b.nodes.set i n', calls } :=
  ⟨forall_mem_set (hb.nodes_of_eq (hn.unbroken.trans hb.unbroken.symm)) hn i, hn.unbroken⟩

/-- The attempts of a bus after one dispatcher changed. -/
theorem attempt?_set_node (hi : b.nodes[i]? = some n) (n' : Node) (h' : Hub) (calls : List Call)
    (k j : Nat) :
    (BusTask.worker k j).attempt? { b with hub := h', nodes := b.nodes.set i n', calls } =
      if k = i then n'.attempt? j else (BusTask.worker k j).attempt? b := by
  simp only [BusTask.attempt?]
  by_cases hk : k = i
  · subst hk
    rw [List.getElem?_set_self (List.getElem?_eq_some_iff.mp hi).1, if_pos rfl]
    rfl
  · rw [List.getElem?_set_ne (Ne.symm hk), if_neg hk]

/-- A dispatcher with the same workers has the same attempts. -/
theorem attempt?_set_node_of_workers (hi : b.nodes[i]? = some n) (hworkers : n'.workers = n.workers)
    (h' : Hub) (calls : List Call) (k j : Nat) :
    (BusTask.worker k j).attempt? { b with hub := h', nodes := b.nodes.set i n', calls } =
      (BusTask.worker k j).attempt? b := by
  rw [attempt?_set_node hi]
  split
  · rename_i hk
    subst hk
    simp only [BusTask.attempt?, hi, Option.bind_some, Node.attempt?, hworkers]
  · rfl

theorem waiting_perm_of_node (hi : b.nodes[i]? = some n) :
    b.waiting.Perm (n.waiting ++
      ((b.nodes.eraseIdx i).flatMap Node.waiting ++ b.calls.flatMap Call.waiting)) := by
  rw [← List.append_assoc]
  exact (perm_flatMap_of_getElem? Node.waiting hi).append_right _

theorem waiting_set_node_perm (hi : b.nodes[i]? = some n) (n' : Node) (h' : Hub) :
    (waiting { b with hub := h', nodes := b.nodes.set i n' }).Perm (n'.waiting ++
      ((b.nodes.eraseIdx i).flatMap Node.waiting ++ b.calls.flatMap Call.waiting)) := by
  rw [← List.append_assoc]
  exact (perm_flatMap_set Node.waiting hi n').append_right _

/-- A dispatcher that gives something up. -/
theorem rests_of_node (hb : b.IsNormal) (hi : b.nodes[i]? = some n) (hn : n.GivesUp aborts n')
    (hstore : b.hub.store.GoesOn h'.store)
    (hbreak : h'.breakdowns.update = b.hub.breakdowns.update) :
    b.Rests aborts { b with hub := h', nodes := b.nodes.set i n' } where
  waiting := by
    have hless := (List.subperm_append_right
      ((b.nodes.eraseIdx i).flatMap Node.waiting ++ b.calls.flatMap Call.waiting)).mpr hn.waiting
    exact ((waiting_set_node_perm hi n' h').subperm.trans hless).trans
      (waiting_perm_of_node hi).symm.subperm
  attempts t := by
    cases t with
    | worker k j =>
      rw [attempt?_set_node hi]
      split
      · rename_i hk
        subst hk
        simp only [BusTask.attempt?, hi, Option.bind_some]
        exact hn.attempts j
      · exact .inl rfl
    | _ => exact .inl rfl
  goesOn := hstore
  normal := isNormal_set hb ((hn.normal (hb.node hi)).of_eq rfl rfl rfl hbreak) i b.calls

/-- A turn of a task that has a hand in the claims of a dispatcher. -/
theorem turn_of_node (hi : b.nodes[i]? = some n) {o o' : Option Attempt}
    (hturn : Turn t ⟨n.waiting, o, b.hub.store⟩ events ⟨n'.waiting, o', h'.store⟩) :
    Turn t ⟨b.waiting, o, b.hub.store⟩ events
      ⟨waiting { b with hub := h', nodes := b.nodes.set i n' }, o', h'.store⟩ :=
  hturn.frame (waiting_perm_of_node hi).symm.subperm (waiting_set_node_perm hi n' h').subperm

end Node

section Call

variable {i k : Nat} {c d : Call} {n n' : Node} {h' : Hub}

/-- The attempts of a bus after a call went on. -/
theorem attempt?_set_call (hi : b.calls[i]? = some c) (d : Call) (j : Nat) :
    (BusTask.call j).attempt? { b with calls := b.calls.set i d } =
      if j = i then d.attempt? else (BusTask.call j).attempt? b := by
  simp only [BusTask.attempt?]
  by_cases hj : j = i
  · subst hj
    rw [List.getElem?_set_self (List.getElem?_eq_some_iff.mp hi).1, if_pos rfl]
    rfl
  · rw [List.getElem?_set_ne (Ne.symm hj), if_neg hj]

theorem waiting_perm_of_call (hi : b.calls[i]? = some c) :
    b.waiting.Perm (c.waiting ++
      (b.nodes.flatMap Node.waiting ++ (b.calls.eraseIdx i).flatMap Call.waiting)) := by
  have hcalls := (perm_flatMap_of_getElem? Call.waiting hi).append_left (b.nodes.flatMap Node.waiting)
  refine hcalls.trans ?_
  rw [← List.append_assoc, ← List.append_assoc]
  exact List.perm_append_comm.append_right _

theorem waiting_set_call_perm (hi : b.calls[i]? = some c) (d : Call) :
    (waiting { b with calls := b.calls.set i d }).Perm (d.waiting ++
      (b.nodes.flatMap Node.waiting ++ (b.calls.eraseIdx i).flatMap Call.waiting)) := by
  have hcalls := (perm_flatMap_set Call.waiting hi d).append_left (b.nodes.flatMap Node.waiting)
  refine hcalls.trans ?_
  rw [← List.append_assoc, ← List.append_assoc]
  exact List.perm_append_comm.append_right _

/-- The claims that dispatchers have, after one of them changed otherwise. -/
theorem flatMap_waiting_set (hk : b.nodes[k]? = some n) (hkeeps : n.KeepsTasks n') :
    (b.nodes.set k n').flatMap Node.waiting = b.nodes.flatMap Node.waiting := by
  obtain ⟨hlt, rfl⟩ := List.getElem?_eq_some_iff.mp hk
  have hlt' : k < (b.nodes.map Node.waiting).length := by rwa [List.length_map]
  have hsame : Node.waiting n' = (b.nodes.map Node.waiting)[k] := by
    rw [hkeeps.waiting, List.getElem_map]
  rw [List.flatMap_def, List.flatMap_def, List.map_set, hsame, List.set_getElem_self]

/-- A turn of a call of a dispatcher. -/
theorem turns_of_call (hb : b.IsNormal) (hi : b.calls[i]? = some c) (hk : b.nodes[k]? = some n)
    (hkeeps : n.KeepsTasks n') (hn : n'.IsNormal h')
    (hturn : Turn (.call i) ⟨c.waiting, c.attempt?, b.hub.store⟩ events
      ⟨d.waiting, d.attempt?, h'.store⟩) :
    b.Turns (.call i) events
      { b with hub := h', nodes := b.nodes.set k n', calls := b.calls.set i d } where
  turn := by
    have hcall : (BusTask.call i).attempt? b = c.attempt? := by
      simp only [BusTask.attempt?, hi, Option.bind_some]
    have hcall' : (BusTask.call i).attempt?
        { b with hub := h', nodes := b.nodes.set k n', calls := b.calls.set i d } = d.attempt? :=
      (attempt?_set_call hi d i).trans (if_pos rfl)
    have hwaiting : waiting { b with hub := h', nodes := b.nodes.set k n', calls := b.calls.set i d } =
        waiting { b with calls := b.calls.set i d } :=
      congrArg (· ++ _) (flatMap_waiting_set hk hkeeps)
    rw [share, share, hcall, hcall', hwaiting]
    exact hturn.frame (waiting_perm_of_call hi).symm.subperm (waiting_set_call_perm hi d).subperm
  others t' ht' := by
    cases t' with
    | worker j m => exact .inl (attempt?_set_node_of_workers hk hkeeps.workers h' _ j m)
    | call j =>
      have hj : j ≠ i := fun heq => ht' (congrArg BusTask.call heq)
      exact .inl ((attempt?_set_call hi d j).trans (if_neg hj))
    | _ => exact .inl rfl
  normal := isNormal_set hb hn k _

/-- A call that is left without claims and without an attempt. -/
theorem rests_of_call (hb : b.IsNormal) (hi : b.calls[i]? = some c) (hwaiting : d.waiting = [])
    (hbefore : c.attempt? = none) (hattempt : d.attempt? = none) :
    b.Rests aborts { b with calls := b.calls.set i d } where
  waiting := by
    have hcalls := waiting_set_call_perm hi d
    rw [hwaiting] at hcalls
    exact (hcalls.subperm.trans (List.sublist_append_right c.waiting _).subperm).trans
      (waiting_perm_of_call hi).symm.subperm
  attempts t := by
    cases t with
    | call j =>
      left
      rw [attempt?_set_call hi]
      split
      · rename_i hj
        subst hj
        simp only [BusTask.attempt?, hi, Option.bind_some, hattempt, hbefore]
      · rfl
    | _ => exact .inl rfl
  goesOn := .refl _
  normal := ⟨hb.nodes, hb.unbroken⟩

end Call

/-- A step of a call is a turn, unless it hands claims back. -/
theorem turns_stepCall? {draw : Draw} {i : Nat} (hs : b.hub.store.IsWellFormed) (hb : b.IsNormal)
    (ha : ∀ a ∈ (BusTask.call i).attempt? b, a.IsNormal) (htask : (BusTask.call i).takesBack b = false)
    (hstep : b.stepCall? draw i = some b') :
    b.Turns (.call i) (AttemptEvent.ofStep b.hub (.call i) ((BusTask.call i).attempt? b)
      ((BusTask.call i).attempt? b')) b' := by
  unfold stepCall? at hstep
  obtain ⟨c, hc, hstep⟩ := Option.bind_eq_some_iff.mp hstep
  have hattempt : (BusTask.call i).attempt? b = c.attempt? := by
    simp only [BusTask.attempt?, hc, Option.bind_some]
  rw [hattempt] at ha ⊢
  have hafter (b₁ : Bus) (hcalls : b₁.calls = b.calls) (c' : Call) :
      (BusTask.call i).attempt? { b₁ with calls := b.calls.set i c' } = c'.attempt? := by
    rw [← hcalls]
    exact (attempt?_set_call (hcalls ▸ hc) c' i).trans (if_pos rfl)
  cases c with
  | process node stage =>
    obtain ⟨n, hn, hstep⟩ := Option.bind_eq_some_iff.mp hstep
    obtain ⟨⟨next, h', n'⟩, hstage, heq⟩ := Option.bind_eq_some_iff.mp hstep
    obtain ⟨hkeeps, hnormal, hturn⟩ :=
      ProcessStage.turn_step? (t := .call i) hs (hb.node hn) ha hstage
    cases next with
    | inl stage' =>
      cases heq
      rw [hafter { b with hub := h', nodes := b.nodes.set node n' } rfl]
      exact turns_of_call (d := .process node stage') hb hc hn hkeeps hnormal hturn
    | inr r =>
      cases heq
      rw [hafter { b with hub := h', nodes := b.nodes.set node n' } rfl]
      exact turns_of_call (d := .over r) hb hc hn hkeeps hnormal hturn
  | shutdown node stage =>
    obtain ⟨n, hn, hstep⟩ := Option.bind_eq_some_iff.mp hstep
    obtain ⟨⟨next, h', n'⟩, hstage, heq⟩ := Option.bind_eq_some_iff.mp hstep
    have hreleasing : ∀ again timedOut, stage ≠ .releasing again timedOut := by
      rintro again timedOut rfl
      simp [BusTask.takesBack, hc] at htask
    have haborts : ∀ deadline timedOut, stage = .finishing deadline timedOut →
        n.areWorkersOver = false → deadline ≤ b.hub.now → (BusTask.call i).aborts b = true := by
      rintro deadline timedOut rfl hworkers hdeadline
      simp [BusTask.aborts, hc, hn, hworkers, hdeadline]
    obtain ⟨hgives, hstore, hbreak⟩ := ShutdownStage.givesUp_step? hreleasing haborts hstage
    have hrests := rests_of_node hb hn hgives (hstore ▸ .refl _) (congrArg _ hbreak)
    cases next with
    | inl stage' =>
      cases heq
      rw [hafter { b with hub := h', nodes := b.nodes.set node n' } rfl]
      exact (hrests.trans (rests_of_call (d := .shutdown node stage') hrests.normal hc rfl rfl rfl)).turns hattempt
    | inr r =>
      cases heq
      rw [hafter { b with hub := h', nodes := b.nodes.set node n' } rfl]
      exact (hrests.trans (rests_of_call (d := .over r) hrests.normal hc rfl rfl rfl)).turns hattempt
  | _ => cases hstep

/-- A step of a worker is a turn of it. -/
theorem turns_worker {draw : Nat → Draw} {node i : Nat} (hs : b.hub.store.IsWellFormed) (hb : b.IsNormal)
    (ha : ∀ a ∈ (BusTask.worker node i).attempt? b, a.IsNormal)
    (hstep : b.step? draw (.worker node i) = some b') :
    b.Turns (.worker node i) (AttemptEvent.ofStep b.hub (.worker node i)
      ((BusTask.worker node i).attempt? b) ((BusTask.worker node i).attempt? b')) b' := by
  simp only [step?, onNode?] at hstep
  obtain ⟨n, hn, hstep⟩ := Option.bind_eq_some_iff.mp hstep
  obtain ⟨⟨h', n'⟩, hrun, heq⟩ := Option.bind_eq_some_iff.mp hstep
  cases heq
  have hattempt : (BusTask.worker node i).attempt? b = n.attempt? i := by
    simp only [BusTask.attempt?, hn, Option.bind_some]
  have hworker : ∀ w ∈ n.workers[i]?, ∀ a ∈ w.attempt?, a.IsNormal := by
    intro w hw a hwa
    refine ha a ?_
    rw [hattempt, Node.attempt?, hw]
    exact hwa
  obtain ⟨w, w', hw, hset, hnormal, hturn⟩ :=
    Worker.turn_step? (t := .worker node i) hs (hb.node hn) hworker hrun
  have hbefore : n.attempt? i = w.attempt? := by rw [Node.attempt?, hw, Option.bind_some]
  have hafter : n'.attempt? i = w'.attempt? := by
    rw [Node.attempt?, hset, List.getElem?_set_self (List.getElem?_eq_some_iff.mp hw).1, Option.bind_some]
  have hattempt' := attempt?_set_node hn n' h' b.calls node i
  rw [if_pos rfl] at hattempt'
  rw [hattempt, hattempt', hbefore, hafter]
  refine ⟨?_, fun t' ht' => .inl ?_, isNormal_set hb hnormal node b.calls⟩
  · rw [share, share, hattempt, hattempt', hbefore, hafter]
    exact turn_of_node hn hturn
  · cases t' with
    | worker k j =>
      rw [attempt?_set_node hn]
      split
      · rename_i hk
        subst hk
        simp only [BusTask.attempt?, hn, Option.bind_some]
        exact Node.attempt?_of_set hset fun hj => ht' (hj ▸ rfl)
      · rfl
    | _ => rfl

/-- A step of a task is a turn, unless it takes claims back or hands them back. -/
theorem turns_step? {draw : Nat → Draw} (hs : b.hub.store.IsWellFormed) (hb : b.IsNormal)
    (ha : ∀ a ∈ t.attempt? b, a.IsNormal) (htask : t.takesBack b = false) (hstep : b.step? draw t = some b') :
    b.Turns t (AttemptEvent.ofStep b.hub t (t.attempt? b) (t.attempt? b')) b' := by
  cases t with
  | call i =>
    simp only [step?] at hstep
    split at hstep
    · exact turns_stepCall? hs hb ha htask hstep
    · exact turns_stepCall? hs hb ha htask hstep
  | worker node i => exact turns_worker hs hb ha hstep
  | claimLoop node =>
    simp only [step?, onNode?] at hstep
    obtain ⟨n, hn, hstep⟩ := Option.bind_eq_some_iff.mp hstep
    obtain ⟨⟨h', n'⟩, hrun, heq⟩ := Option.bind_eq_some_iff.mp hstep
    cases heq
    have hturns := ClaimLoop.turns_step? (t := .claimLoop node) hs (hb.node hn) hrun
    refine ⟨turn_of_node hn hturns.turn, fun t' _ => .inl ?_, isNormal_set hb hturns.normal node b.calls⟩
    cases t' with
    | worker k j => exact attempt?_set_node_of_workers hn hturns.workers h' b.calls k j
    | _ => rfl
  | reaper node =>
    simp only [step?, onNode?] at hstep
    obtain ⟨n, hn, hstep⟩ := Option.bind_eq_some_iff.mp hstep
    obtain ⟨⟨h', n'⟩, hrun, heq⟩ := Option.bind_eq_some_iff.mp hstep
    cases heq
    have hreaping : n.reaper ≠ some .reaping := by
      intro hreaper
      simp [BusTask.takesBack, hn, hreaper] at htask
    obtain ⟨rfl, hkeeps, hregistry, hstarted⟩ := Reaper.keepsTasks_step? hreaping hrun
    exact (rests_of_node hb hn (hkeeps.givesUp hregistry hstarted) (.refl _) rfl).turns rfl

end Bus

end DurableQueue
