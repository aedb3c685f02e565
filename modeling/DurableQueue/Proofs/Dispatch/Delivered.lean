import DurableQueue.Proofs.Dispatch.Backpressure
import DurableQueue.Proofs.Dispatch.Custody
import DurableQueue.Proofs.Dispatch.Invocation

/-!
What tasks tell of their dispatches in a run.

A task tells of its dispatches one after the other (`Scene.dispatching_run`), and whatever is dispatched is a
claim that is held, with the handlers that its dispatcher was given (`BusTask.begun_of_dispatches`,
`Scene.employs_run`).
-/

namespace DurableQueue

/-- What one action tells of a task, from what the task had to tell before it and has to tell after it. -/
inductive Tells (t : BusTask) :
    Option (List DispatchEvent) → List DispatchEvent → Option (List DispatchEvent) → Prop where
  | rests (o : Option (List DispatchEvent)) : Tells t o [] o
  | begun (k : Nat) (e : Entry) (answer : Except DispatchOutcome Invocation) :
    Tells t (some []) [.begun t k e answer] (some (DispatchEvent.course t e answer))
  | told (x : DispatchEvent) (rest : List DispatchEvent) : Tells t (some (x :: rest)) [x] (some rest)
  /-- The task stops, whatever it had still to tell. -/
  | stops (o : Option (List DispatchEvent)) : Tells t o [] none

variable {t : BusTask}

namespace Attempt

variable {a a' : Attempt} {n : Node} {e : Entry}

theorem dispatches_self (t : BusTask) (a : Attempt) : a.dispatches t a = [] := by
  cases a with
  | handling e effects result =>
    cases effects with
    | nil => rfl
    | cons effect rest => simp [dispatches]
  | _ => rfl

/-- An attempt that begins has to tell the whole course of its dispatch. -/
theorem outstanding_begin_ (t : BusTask) (n : Node) (e : Entry) :
    (begin_ n e).1.outstanding t = DispatchEvent.course t e (n.registry.invocation e) := by
  have hprepare := n.registry.prepare_eq e
  unfold begin_
  simp only [Node.count, hprepare]
  cases n.registry.invocation e <;> rfl

theorem GoesTo.dispatches (h : a.GoesTo a') (t : BusTask) :
    Tells t (some (a.outstanding t)) (a.dispatches t a') (some (a'.outstanding t)) := by
  cases h with
  | performed effect rest result =>
    simp only [dispatches, ↓reduceIte]
    exact .told _ _
  | slept span wakeAt rest result => exact .told _ _
  | woke wakeAt effects result => exact .rests _
  | judged result => exact .told _ _
  | built next outcome => exact .rests _
  | stored next outcome verdict => exact .rests _

end Attempt

namespace Worker

variable {k : Nat} {n : Node} {o : Option Worker}

/-- A worker that stays where it is. -/
theorem dispatches_same (t : BusTask) (k : Nat) (r : Registry) (o : Option Worker) :
    Tells t (outstanding t o) (dispatches t k r o o) (outstanding t o) := by
  have hsilent : dispatches t k r o o = [] := by
    rcases o with _ | w
    · rfl
    · cases w with
      | busy a => exact a.dispatches_self t
      | _ => rfl
  rw [hsilent]
  exact .rests _

/-- A worker that stops. -/
theorem dispatches_stopped (t : BusTask) (k : Nat) (r : Registry) (o : Option Worker) :
    Tells t (outstanding t o) (dispatches t k r o (some stopped)) (outstanding t (some stopped)) := by
  have hsilent : dispatches t k r o (some stopped) = [] := by
    rcases o with _ | w
    · rfl
    · cases w <;> rfl
  rw [hsilent]
  exact .stops _

end Worker

namespace Node

variable {h h' : Hub} {n n' : Node}

/-- What a step of a dispatcher tells of its workers. -/
theorem Step.dispatches (hstep : n.Step h h' n') (t : BusTask) (k i : Nat) :
    Tells t (Worker.outstanding t n.workers[i]?)
      (Worker.dispatches t k n.registry n.workers[i]? n'.workers[i]?)
      (Worker.outstanding t n'.workers[i]?) := by
  have hset {j : Nat} {w w' : Worker} (hj : n.workers[j]? = some w)
      (htells : Tells t (Worker.outstanding t (some w))
        (Worker.dispatches t k n.registry (some w) (some w')) (Worker.outstanding t (some w'))) :
      Tells t (Worker.outstanding t n.workers[i]?)
        (Worker.dispatches t k n.registry n.workers[i]? (n.workers.set j w')[i]?)
        (Worker.outstanding t (n.workers.set j w')[i]?) := by
    by_cases hij : j = i
    · subst hij
      rw [getElem?_set_of_some hj, hj]
      exact htells
    · rw [List.getElem?_set_ne hij]
      exact Worker.dispatches_same t k _ _
  cases hstep with
  | @taken j e rest stats idle queue skips =>
    refine hset idle ?_
    rw [Worker.dispatches, Attempt.entry_begin_, Worker.outstanding, Worker.outstanding,
      Attempt.outstanding_begin_]
    exact .begun k e _
  | worked busy goes serves skips => exact hset busy (goes.dispatches t)
  | finished busy free serves skips =>
    refine hset busy ?_
    rcases free with ⟨rfl, e, verdict, rfl⟩ | rfl
    · exact .rests _
    · exact Worker.dispatches_stopped t k _ _
  | retired idle => exact hset idle (Worker.dispatches_stopped t k _ _)
  | cut skips =>
    cases hi : n.workers[i]? with
    | none =>
      simp only [List.getElem?_map, hi, Option.map_none]
      exact Worker.dispatches_same t k _ _
    | some w =>
      simp only [List.getElem?_map, hi, Option.map_some]
      exact Worker.dispatches_stopped t k _ _
  | _ => exact Worker.dispatches_same t k _ _

/-- A dispatcher that is started tells nothing: its workers are new. -/
theorem Begins.dispatches (hbegins : n.Begins h h' n') (hnew : n.isStarted = false → n.workers = [])
    (t : BusTask) (k i : Nat) :
    Tells t (Worker.outstanding t n.workers[i]?)
      (Worker.dispatches t k n.registry n.workers[i]? n'.workers[i]?)
      (Worker.outstanding t n'.workers[i]?) := by
  cases hbegins with
  | refused | declared => exact Worker.dispatches_same t k _ _
  | started unstarted | subscribed unstarted =>
    rw [hnew unstarted, List.getElem?_replicate]
    split <;> exact .rests _

end Node

namespace Call

variable {b : Bus} {s : Store} {x : BusAction} {c c' : Call}

theorem dispatches_same (t : BusTask) (nodes : List Node) (o : Option Call) :
    Tells t (outstanding t o) (dispatches t nodes o o) (outstanding t o) := by
  have hsilent : dispatches t nodes o o = [] := by
    rcases o with _ | c
    · rfl
    · cases c with
      | process k stage =>
        cases stage with
        | attempting count a rest => exact a.dispatches_self t
        | _ => rfl
      | _ => rfl
  rw [hsilent]
  exact .rests _

theorem Step.dispatches (hstep : c.Step b s c') (t : BusTask) :
    Tells t (outstanding t (some c)) (dispatches t b.nodes (some c) (some c')) (outstanding t (some c')) := by
  cases hstep with
  | claimed claims => exact .rests _
  | @begun k count n e rest node =>
    simp only [Call.dispatches, node, Attempt.entry_begin_, outstanding, Attempt.outstanding_begin_]
    exact .begun k e _
  | went goes => exact goes.dispatches t
  | finished booking =>
    obtain ⟨e, verdict, rfl⟩ := booking
    exact .rests _
  | answered _ r =>
    have hsilent : Call.dispatches t b.nodes (some c) (some (.over r)) = [] := by
      cases c with
      | process k stage => cases stage <;> rfl
      | _ => rfl
    rw [hsilent]
    exact .stops _
  | shuts => exact .rests _

/-- A call that is added has nothing to tell. -/
theorem IsGiven.outstanding (hc : c.IsGiven x) (t : BusTask) : outstanding t (some c) = some [] := by
  unfold IsGiven at hc
  split at hc
  · rfl
  · rfl
  · rfl
  · rfl
  · exact hc.elim

end Call

namespace Bus

variable {b b' : Bus} {x : BusAction}

theorem dispatches_worker (hs : ∀ n ∈ b.nodes, n.isStarted = false → n.workers = []) (x : BusAction)
    (k i : Nat) : Tells (.worker k i) (BusTask.outstanding b (.worker k i))
      (BusTask.dispatches b (b.act x) (.worker k i)) (BusTask.outstanding (b.act x) (.worker k i)) := by
  simp only [BusTask.outstanding, BusTask.dispatches]
  cases hk : b.nodes[k]? with
  | none =>
    cases hk' : (b.act x).nodes[k]? with
    | none => exact .rests _
    | some n' =>
      obtain ⟨id, config, registry, clock, isAttached, -, rfl⟩ := (b.change_act x).new_node hk hk'
      exact .rests _
  | some n =>
    obtain ⟨n', hk', hat⟩ := (b.change_act x).at_node hk
    rw [hk']
    cases hat with
    | step step => exact step.dispatches _ k i
    | begins asked begins => exact begins.dispatches (hs n (List.mem_of_getElem? hk)) _ k i
    | elsewhere elsewhere => exact Worker.dispatches_same _ k _ _

theorem dispatches_call (hs : b.hub.store.IsWellFormed) (x : BusAction) (i : Nat) :
    Tells (.call i) (BusTask.outstanding b (.call i)) (BusTask.dispatches b (b.act x) (.call i))
      (BusTask.outstanding (b.act x) (.call i)) := by
  simp only [BusTask.outstanding, BusTask.dispatches]
  cases callChange_act hs x with
  | rest calls =>
    rw [calls]
    exact Call.dispatches_same _ _ _
  | @asked c given calls =>
    rw [calls]
    cases hi : b.calls[i]? with
    | some d =>
      rw [getElem?_snoc_eq_some_iff.mpr (.inl hi)]
      exact Call.dispatches_same _ _ _
    | none =>
      have hquiet : Call.outstanding (.call i) (b.calls ++ [c])[i]? = some [] := by
        cases hi' : (b.calls ++ [c])[i]? with
        | none => rfl
        | some d =>
          rcases getElem?_snoc_eq_some_iff.mp hi' with hold | ⟨-, rfl⟩
          · cases hi.symm.trans hold
          · exact given.outstanding _
      rw [hquiet]
      exact .rests _
  | @stepped j draw c c' task call step calls =>
    rw [calls]
    by_cases hij : j = i
    · subst hij
      rw [getElem?_set_of_some call, call]
      exact step.dispatches _
    · rw [List.getElem?_set_ne hij]
      exact Call.dispatches_same _ _ _

/-- What an action tells of a task. -/
theorem dispatches_act (hs : b.hub.store.IsWellFormed)
    (hnodes : ∀ n ∈ b.nodes, n.isStarted = false → n.workers = []) (x : BusAction) (t : BusTask) :
    Tells t (t.outstanding b) (t.dispatches b (b.act x)) (t.outstanding (b.act x)) := by
  cases t with
  | worker k i => exact dispatches_worker hnodes x k i
  | call i => exact dispatches_call hs x i
  | claimLoop k => exact .rests _
  | reaper k => exact .rests _

theorem dispatches_same (b : Bus) (t : BusTask) :
    Tells t (t.outstanding b) (t.dispatches b b) (t.outstanding b) := by
  cases t with
  | worker k i =>
    simp only [BusTask.outstanding, BusTask.dispatches]
    cases b.nodes[k]? with
    | none => exact .rests _
    | some n => exact Worker.dispatches_same _ k _ _
  | call i => exact Call.dispatches_same _ _ _
  | claimLoop k => exact .rests _
  | reaper k => exact .rests _

end Bus

/-- A step of an attempt begins none. -/
theorem Attempt.not_begun (t t' : BusTask) (a a' : Attempt) (k : Nat) (e : Entry)
    (answer : Except DispatchOutcome Invocation) : .begun t' k e answer ∉ a.dispatches t a' := by
  intro hmem
  unfold Attempt.dispatches at hmem
  split at hmem
  · split at hmem
    · cases List.mem_singleton.mp hmem
    · cases hmem
  · cases List.mem_singleton.mp hmem
  · cases List.mem_singleton.mp hmem
  · cases hmem

/-- Whoever begins a dispatch has the claim in hand, and calls whom its dispatcher has for it. -/
theorem BusTask.begun_of_dispatches {b b' : Bus} {t t' : BusTask} {k : Nat} {e : Entry}
    {answer : Except DispatchOutcome Invocation} (hmem : .begun t' k e answer ∈ t.dispatches b b') :
    (∃ n, b.nodes[k]? = some n ∧ answer = n.registry.invocation e) ∧ b'.Holds e := by
  cases t with
  | worker j i =>
    simp only [BusTask.dispatches] at hmem
    split at hmem
    · rename_i n n' hn hn'
      unfold Worker.dispatches at hmem
      split at hmem
      · rename_i a _ hbusy
        cases List.mem_singleton.mp hmem
        exact ⟨⟨n, hn, rfl⟩,
          .inl ⟨n', List.mem_of_getElem? hn', .inr (.inr ⟨_, List.mem_of_getElem? hbusy, rfl⟩)⟩⟩
      · exact (Attempt.not_begun _ _ _ _ _ _ _ hmem).elim
      · cases hmem
    · cases hmem
  | call i =>
    simp only [BusTask.dispatches] at hmem
    unfold Call.dispatches at hmem
    split at hmem
    · rename_i hattempting
      split at hmem
      · rename_i n hn
        cases List.mem_singleton.mp hmem
        exact ⟨⟨n, hn, rfl⟩, .inr ⟨_, List.mem_of_getElem? hattempting, List.mem_cons_self⟩⟩
      · cases hmem
    · exact (Attempt.not_begun _ _ _ _ _ _ _ hmem).elim
    · cases hmem
  | claimLoop j => cases hmem
  | reaper j => cases hmem

/-- The handlers with which an action adds a dispatcher. -/
def BusAction.registry? : BusAction → Option Registry
  | .add _ _ registry _ _ => some registry
  | _ => none

theorem Node.Step.sameHandlers {h h' : Hub} {n n' : Node} (hstep : n.Step h h' n') :
    n.registry.SameHandlers n'.registry := by
  cases hstep with
  | aside serves skips stays handlers => exact handlers
  | worked busy goes serves skips handlers => exact handlers
  | finished busy free serves skips handlers => exact handlers
  | _ => exact .refl _

theorem Node.Begins.registry_eq {h h' : Hub} {n n' : Node} (hbegins : n.Begins h h' n') :
    n'.registry = n.registry := by
  cases hbegins <;> rfl

namespace Bus

variable {b : Bus} {rs : List Registry}

/-- The dispatchers have the handlers with which they were added. -/
structure Employs (rs : List Registry) (b : Bus) : Prop where
  length : rs.length = b.nodes.length
  same : ∀ (k : Nat) (r : Registry) (n : Node), rs[k]? = some r → b.nodes[k]? = some n →
    r.SameHandlers n.registry

theorem length_nodes_act (b : Bus) (x : BusAction) :
    (b.act x).nodes.length = b.nodes.length + x.registry?.toList.length := by
  have hdrop : ∀ id, (b.drop id).nodes.length = b.nodes.length := fun id => by
    unfold drop
    split
    · exact List.length_modify ..
    · rfl
  have hchange := b.change_act x
  cases x with
  | add id config registry clock isAttached =>
    simp only [act, add, List.length_append, List.length_singleton, BusAction.registry?]
    rw [Node.unstarted, hdrop]
    rfl
  | _ =>
    cases hchange with
    | moved node step nodes | begun asked node begins nodes =>
      rw [nodes, List.length_set]
      rfl
    | served serves nodes | timed start now asked hub nodes =>
      rw [nodes]
      rfl
    | added id config registry clock isAttached asked => cases asked

theorem Employs.act (h : b.Employs rs) (x : BusAction) : (b.act x).Employs (rs ++ x.registry?.toList) where
  length := by rw [List.length_append, h.length, length_nodes_act]
  same k r n' hr hn' := by
    cases hk : b.nodes[k]? with
    | none =>
      obtain ⟨id, config, registry, clock, isAttached, rfl, rfl⟩ := (b.change_act x).new_node hk hn'
      rcases getElem?_snoc_eq_some_iff.mp hr with hold | ⟨-, rfl⟩
      · have hlt := (List.getElem?_eq_some_iff.mp hold).1
        have hle := List.getElem?_eq_none_iff.mp hk
        rw [h.length] at hlt
        omega
      · exact .refl _
    | some n =>
      have hlt := (List.getElem?_eq_some_iff.mp hk).1
      rw [← h.length] at hlt
      rw [List.getElem?_append_left hlt] at hr
      obtain ⟨n₁, hn₁, hat⟩ := (b.change_act x).at_node hk
      obtain rfl : n₁ = n' := Option.some.inj (hn₁.symm.trans hn')
      have hbefore := h.same k r n hr hk
      cases hat with
      | step step => exact hbefore.trans step.sameHandlers
      | begins asked begins => exact begins.registry_eq.symm ▸ hbefore
      | elsewhere elsewhere => exact hbefore

end Bus

namespace Scene

variable {start : Timestamp} {actions : List BusAction} {s : Scene}

theorem dispatches_concat (t : BusTask) (s : Scene) (actions : List BusAction) (x : BusAction) :
    s.dispatches t (actions ++ [x]) =
      s.dispatches t actions ++ t.dispatches (s.run actions).bus ((s.run actions).act x).bus := by
  induction actions generalizing s with
  | nil => exact List.append_nil _
  | cons y rest ih =>
    rw [List.cons_append, dispatches, dispatches, ih, List.append_assoc]
    rfl

/-- A dispatcher that was not started has no workers. -/
theorem unstarted_run (start : Timestamp) (actions : List BusAction) :
    ∀ n ∈ ((startingAt start).run actions).bus.nodes, n.isStarted = false → n.workers = [] := by
  intro n hn hunstarted
  obtain ⟨more, hmore⟩ := bus_run start actions
  rw [hmore] at hn
  obtain ⟨k, hk⟩ := List.mem_iff_getElem?.mp hn
  exact ((Bus.isBounded_run start more hk).1.unstarted hunstarted).2.1

/-- What an action tells of a task of a scene. -/
theorem dispatches_act (hs : s.bus.hub.store.IsWellFormed)
    (hnodes : ∀ n ∈ s.bus.nodes, n.isStarted = false → n.workers = []) (x : BusAction) (t : BusTask) :
    Tells t (t.outstanding s.bus) (t.dispatches s.bus (s.act x).bus) (t.outstanding (s.act x).bus) := by
  rcases s.act_cases x with ⟨-, hsame⟩ | ⟨-, hact⟩
  · rw [hsame]
    exact Bus.dispatches_same _ t
  · rw [hact]
    exact Bus.dispatches_act hs hnodes x t

/-- The dispatches of a task are told one after the other. -/
theorem dispatching_run (start : Timestamp) (actions : List BusAction) (t : BusTask) :
    ∃ rest, Dispatching t ((startingAt start).dispatches t actions) rest ∧
      ∀ o, t.outstanding ((startingAt start).run actions).bus = some o → o = rest := by
  induction actions using List.reverseRecOn with
  | nil =>
    refine ⟨[], .nil, fun o ho => ?_⟩
    cases t <;> exact (Option.some.inj ho).symm
  | append_singleton actions x ih =>
    obtain ⟨rest, hlog, hrest⟩ := ih
    have htells := dispatches_act (isKept_run start actions).wellFormed (unstarted_run start actions) x t
    rw [dispatches_concat, run_concat]
    generalize t.dispatches _ _ = events at htells ⊢
    generalize t.outstanding _ = before at htells hrest
    generalize t.outstanding _ = after at htells ⊢
    cases htells with
    | rests =>
      rw [List.append_nil]
      exact ⟨rest, hlog, hrest⟩
    | begun k e answer =>
      obtain rfl := hrest [] rfl
      exact ⟨_, hlog.begun k e answer, fun o ho => (Option.some.inj ho).symm⟩
    | told x rest' =>
      obtain rfl := hrest (x :: rest') rfl
      exact ⟨rest', hlog.told, fun o ho => (Option.some.inj ho).symm⟩
    | stops =>
      rw [List.append_nil]
      exact ⟨rest, hlog, nofun⟩

theorem employs_run (start : Timestamp) (actions : List BusAction) :
    ((startingAt start).run actions).bus.Employs (actions.filterMap BusAction.registry?) := by
  induction actions using List.reverseRecOn with
  | nil => exact ⟨rfl, fun _ _ _ hr => by cases hr⟩
  | append_singleton actions x ih =>
    have hnext := ih.act x
    have hasked : [x].filterMap BusAction.registry? = x.registry?.toList := by
      cases hx : x.registry? <;> simp [hx]
    rw [run_concat, List.filterMap_append, hasked]
    rcases ((startingAt start).run actions).act_cases x with ⟨hgiven, hsame⟩ | ⟨-, hact⟩
    · have hnone : x.registry? = none := by cases x <;> first | rfl | exact absurd rfl hgiven
      rw [hsame, hnone, Option.toList_none, List.append_nil]
      exact ih
    · rw [hact]
      exact hnext

end Scene

end DurableQueue
