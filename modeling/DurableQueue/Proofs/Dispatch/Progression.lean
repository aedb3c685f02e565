import DurableQueue.Proofs.Dispatch.CallStep
import DurableQueue.Proofs.Dispatch.Ledger
import DurableQueue.Proofs.Dispatch.Tending

/-!
How the attempts of a bus come about and go on.

A bus makes attempts in workers and in calls (`Bus.Makes`). Whatever happens, at most one attempt begins, is given
or takes a step, and the store is left alone, operated on routinely, or operated on as the attempt or the action
says. This is `Bus.Works`, from which follows whatever all attempts of a run keep.
-/

namespace DurableQueue

/-- An attempt is in progress, also when its record is stored. -/
def Bus.Makes (b : Bus) (a : Attempt) : Prop :=
  (∃ n ∈ b.nodes, .busy a ∈ n.workers) ∨ ∃ c ∈ b.calls, c.attempting? = some a

/-- What an action does to attempts and to the store. -/
inductive Bus.Works (b : Bus) (x : BusAction) (b' : Bus) : Prop where
  /-- No attempt begins or goes on. -/
  | tends (store : b.hub.store.Tended b.hub.time b'.hub.store)
    (unbroken : b.hub.breakdowns = ⟨0, 0, 0⟩ → b'.hub.breakdowns = ⟨0, 0, 0⟩)
    (attempts : ∀ a, b'.Makes a → b.Makes a)
  /-- Another client operates on the store. -/
  | operates {op : StoreOp} (asked : x = .operate op) (hub : b'.hub = (b.hub.operate op).2)
    (attempts : ∀ a, b'.Makes a → b.Makes a)
  | breaks {breakdowns : Breakdowns} (asked : x = .breakDown breakdowns)
    (store : b'.hub.store = b.hub.store) (attempts : ∀ a, b'.Makes a → b.Makes a)
  | begins {n : Node} {e : Entry} (node : n ∈ b.nodes) (hub : b'.hub = b.hub)
    (attempts : ∀ a, b'.Makes a → b.Makes a ∨ a = (Attempt.begin_ n e).1)
  /-- A dispatcher is told how an attempt ended. -/
  | given {i : Nat} {e : Entry} {outcome : DispatchOutcome} (asked : x = .resolve i e outcome)
    (hub : b'.hub = b.hub) (attempts : ∀ a, b'.Makes a → b.Makes a ∨ a = .judged e outcome)
  | goes {n n' : Node} {a : Attempt} {p : Progress} {h' : Hub} {draw : Draw} (node : n ∈ b.nodes)
    (made : b.Makes a) (step : a.step? draw b.hub n = some (p, h', n')) (hub : b'.hub = h')
    (attempts : ∀ a', b'.Makes a' → b.Makes a' ∨ p = .going a')

variable {b b' : Bus} {x : BusAction} {h h' : Hub} {n n' : Node} {k : Nat}

/-- A step of an attempt leaves the workers of the dispatcher to themselves. -/
theorem Attempt.workers_step? {a : Attempt} {draw : Draw} {p : Progress}
    (hstep : a.step? draw h n = some (p, h', n')) : n'.workers = n.workers := by
  obtain ⟨-, ⟨registry, stats, rfl, -, -⟩, -, -⟩ := serves_step? hstep
  rfl

theorem Attempt.workers_begin_ (n : Node) (e : Entry) : (begin_ n e).2.workers = n.workers := by
  rw [snd_begin_]
  rfl

namespace Bus

/-- What is made after one dispatcher and some calls changed. -/
theorem makes_of_set {q : Attempt → Prop} {roster : List (NodeId × Nat)} {calls : List Call}
    (hk : b.nodes[k]? = some n) (hworkers : ∀ a, .busy a ∈ n'.workers → .busy a ∈ n.workers ∨ q a)
    (hcalls : ∀ c ∈ calls, ∀ a, c.attempting? = some a → (∃ c ∈ b.calls, c.attempting? = some a) ∨ q a)
    {a : Attempt} (ha : Bus.Makes ⟨h', b.nodes.set k n', roster, calls⟩ a) : b.Makes a ∨ q a := by
  rcases ha with ⟨m, hm, ha⟩ | ⟨c, hc, ha⟩
  · rcases List.mem_or_eq_of_mem_set hm with hm | rfl
    · exact .inl (.inl ⟨m, hm, ha⟩)
    · rcases hworkers a ha with hold | hnew
      · exact .inl (.inl ⟨n, List.mem_of_getElem? hk, hold⟩)
      · exact .inr hnew
  · rcases hcalls c hc a ha with hold | hnew
    · exact .inl (.inr hold)
    · exact .inr hnew

/-- A step of one dispatcher that works on no attempt. -/
theorem works_of_tends {calls : List Call} (hk : b.nodes[k]? = some n) (htends : n.Tends b.hub h' n')
    (hcalls : ∀ c ∈ calls, ∀ a, c.attempting? = some a → ∃ c ∈ b.calls, c.attempting? = some a) :
    b.Works x { b with hub := h', nodes := b.nodes.set k n', calls } := by
  refine .tends htends.store htends.unbroken fun a ha => ?_
  have hmade := makes_of_set (q := fun _ => False) hk (fun a ha => .inl (htends.workers a ha))
    (fun c hc a ha => .inl (hcalls c hc a ha)) ha
  exact hmade.resolve_right id

theorem works_onNode? {f : Hub → Node → Option (Hub × Node)}
    (hf : ∀ n h' n', f b.hub n = some (h', n') → n.Tends b.hub h' n')
    (hstep : b.onNode? k f = some b') : b.Works x b' := by
  obtain ⟨n, hk, hstep⟩ := Option.bind_eq_some_iff.mp hstep
  obtain ⟨⟨h', n'⟩, hrun, heq⟩ := Option.bind_eq_some_iff.mp hstep
  cases heq
  exact works_of_tends hk (hf n h' n' hrun) fun c hc a ha => ⟨c, hc, ha⟩

theorem works_getD_onNode? {f : Hub → Node → Hub × Node}
    (hf : ∀ n : Node, n.Tends b.hub (f b.hub n).1 (f b.hub n).2) :
    b.Works x ((b.onNode? k fun h n => some (f h n)).getD b) := by
  cases hstep : b.onNode? k fun h n => some (f h n) with
  | none => exact .tends (.inl rfl) (fun hnone => hnone) fun _ ha => ha
  | some b' =>
    refine works_onNode? (fun n h' n' hrun => ?_) hstep
    obtain ⟨rfl, rfl⟩ := Prod.mk.inj (Option.some.inj hrun)
    exact hf n

theorem works_worker {i : Nat} {draw : Draw}
    (hstep : (b.onNode? k fun h n => Worker.step? draw h n i) = some b') : b.Works x b' := by
  obtain ⟨n, hk, hstep⟩ := Option.bind_eq_some_iff.mp hstep
  obtain ⟨⟨h', n'⟩, hrun, heq⟩ := Option.bind_eq_some_iff.mp hstep
  cases heq
  have hrun : Worker.step? draw b.hub n i = some (h', n') := hrun
  have hn := List.mem_of_getElem? hk
  have hcalls : ∀ (q : Attempt → Prop), ∀ c ∈ b.calls, ∀ a, c.attempting? = some a →
      (∃ c ∈ b.calls, c.attempting? = some a) ∨ q a := fun q c hc a ha => .inl ⟨c, hc, ha⟩
  have hset : ∀ (w : Worker) (q : Attempt → Prop), (∀ a, .busy a = w → q a) →
      ∀ a, .busy a ∈ n.workers.set i w → .busy a ∈ n.workers ∨ q a := by
    intro w q hq a ha
    rcases List.mem_or_eq_of_mem_set ha with hold | hnew
    · exact .inl hold
    · exact .inr (hq a hnew)
  have hstops : n.Tends b.hub b.hub (n.withWorker i .stopped) :=
    ⟨.inl rfl, fun hnone => hnone, fun a ha => (hset .stopped (fun _ => False) (fun a heq => by cases heq) a ha).resolve_right id⟩
  unfold Worker.step? at hrun
  split at hrun
  · split at hrun
    · cases hrun
      exact works_of_tends hk hstops fun c hc a ha => ⟨c, hc, ha⟩
    · split at hrun
      · rename_i e rest hqueue
        have hsame : (Attempt.begin_ { n with queue := rest } e).1 = (Attempt.begin_ n e).1 :=
          Attempt.fst_begin_ (show { n with queue := rest }.registry = n.registry from rfl) e
        have hkept := Attempt.workers_begin_ { n with queue := rest } e
        rcases hbegun : Attempt.begin_ { n with queue := rest } e with ⟨a, m⟩
        rw [hbegun] at hrun hsame hkept
        cases hrun
        obtain rfl : a = (Attempt.begin_ n e).1 := hsame
        refine .begins (e := e) hn rfl fun a' ha' => ?_
        refine makes_of_set (q := fun a => a = (Attempt.begin_ n e).1) hk (fun a' ha' => ?_) (hcalls _) ha'
        refine hset (.busy (Attempt.begin_ n e).1) _ (fun a' heq => Worker.busy.inj heq) a' ?_
        rwa [Node.withWorker, hkept] at ha'
      · split at hrun
        · cases hrun
          exact works_of_tends hk hstops fun c hc a ha => ⟨c, hc, ha⟩
        · cases hrun
  · rename_i a hbusy
    obtain ⟨⟨p, h₁, n₁⟩, hattempt, heq⟩ := Option.map_eq_some_iff.mp hrun
    have hmade : b.Makes a := .inl ⟨n, hn, List.mem_of_getElem? hbusy⟩
    have hkept := Attempt.workers_step? hattempt
    -- whatever the worker becomes, it makes at most the attempt that goes on
    have hafter : ∀ w, (∀ a', Worker.busy a' = w → p = .going a') → h' = h₁ → n' = n₁.withWorker i w →
        b.Works x { b with hub := h', nodes := b.nodes.set k n' } := by
      rintro w hw rfl rfl
      refine .goes hn hmade hattempt rfl fun a' ha' => ?_
      refine makes_of_set (q := fun a' => p = .going a') hk (fun a' ha' => ?_) (hcalls _) ha'
      refine hset w _ hw a' ?_
      rwa [Node.withWorker, hkept] at ha'
    cases p with
    | going a' =>
      cases heq
      exact hafter (.busy a') (fun _ heq => by cases heq; rfl) rfl rfl
    | finished =>
      cases heq
      exact hafter .idle (fun a' heq => by cases heq) rfl rfl
    | brokeDown =>
      cases heq
      exact hafter .stopped (fun a' heq => by cases heq) rfl rfl
  · cases hrun
  · cases hrun

/-- A call that makes no attempt takes the place of another. -/
theorem attempting_of_set {i : Nat} {c' : Call} (hquiet : c'.attempting? = none) :
    ∀ c ∈ b.calls.set i c', ∀ a, c.attempting? = some a → ∃ c ∈ b.calls, c.attempting? = some a := by
  intro c hc a ha
  rcases List.mem_or_eq_of_mem_set hc with hold | rfl
  · exact ⟨c, hold, ha⟩
  · rw [hquiet] at ha
    cases ha

theorem works_process {i : Nat} {draw : Draw} {stage : ProcessStage} {next : ProcessStage ⊕ CallResult}
    (hc : b.calls[i]? = some (.process k stage)) (hk : b.nodes[k]? = some n)
    (hstage : stage.step? draw b.hub n = some (next, h', n')) :
    b.Works x { b with
      hub := h', nodes := b.nodes.set k n', calls := b.calls.set i (next.elim (.process k) .over) } := by
  have hn := List.mem_of_getElem? hk
  cases stage with
  | claiming =>
    simp only [ProcessStage.step?] at hstage
    split at hstage
    · rename_i j hbroken
      cases hstage
      refine works_of_tends hk ⟨.inl rfl, fun hnone => ?_, fun _ ha => ha⟩ (attempting_of_set rfl)
      rw [hnone] at hbroken
      cases hbroken
    · rcases hclaim : n.claims.claim b.hub.store n.config.maxEntriesClaimed b.hub.time with ⟨_ | es, s⟩
      · rw [hclaim] at hstage
        cases hstage
        exact works_of_tends hk (.of_tended (.of_claim hclaim) rfl rfl) (attempting_of_set rfl)
      · rw [hclaim] at hstage
        cases hstage
        exact works_of_tends hk (.of_tended (.of_claim hclaim) rfl rfl) (attempting_of_set rfl)
  | between count rest =>
    cases rest with
    | nil =>
      cases hstage
      exact works_of_tends hk (.of_rest rfl rfl rfl) (attempting_of_set rfl)
    | cons e rest =>
      have hkept := Attempt.workers_begin_ n e
      cases hstage
      refine .begins (e := e) hn rfl fun a' ha' => ?_
      refine makes_of_set (q := fun a => a = (Attempt.begin_ n e).1) hk (fun a ha => .inl (hkept ▸ ha))
        (fun c hc a ha => ?_) ha'
      rcases List.mem_or_eq_of_mem_set hc with hold | rfl
      · exact .inl ⟨c, hold, ha⟩
      · exact .inr (Option.some.inj ha).symm
  | attempting count a rest =>
    obtain ⟨⟨p, h₁, n₁⟩, hattempt, heq⟩ := Option.map_eq_some_iff.mp hstage
    have hmade : b.Makes a := .inr ⟨_, List.mem_of_getElem? hc, rfl⟩
    have hkept := Attempt.workers_step? hattempt
    have hafter : ∀ c', (∀ a', c'.attempting? = some a' → p = .going a') → h' = h₁ → n' = n₁ →
        b.Works x { b with hub := h', nodes := b.nodes.set k n', calls := b.calls.set i c' } := by
      rintro c' hc' rfl rfl
      refine .goes hn hmade hattempt rfl fun a' ha' => ?_
      refine makes_of_set (q := fun a' => p = .going a') hk (fun a ha => .inl (hkept ▸ ha))
        (fun c hc a ha => ?_) ha'
      rcases List.mem_or_eq_of_mem_set hc with hold | rfl
      · exact .inl ⟨c, hold, ha⟩
      · exact .inr (hc' a ha)
    cases p with
    | going a' =>
      cases heq
      exact hafter _ (fun _ heq => by cases heq; rfl) rfl rfl
    | finished =>
      cases heq
      exact hafter _ (fun a' heq => by cases heq) rfl rfl
    | brokeDown =>
      cases heq
      exact hafter _ (fun a' heq => by cases heq) rfl rfl

theorem works_stepCall? {i : Nat} {draw : Draw} (hstep : b.stepCall? draw i = some b') : b.Works x b' := by
  obtain ⟨c, hc, hstep⟩ := Option.bind_eq_some_iff.mp hstep
  cases c with
  | process k stage =>
    obtain ⟨n, hk, hstep⟩ := Option.bind_eq_some_iff.mp hstep
    obtain ⟨⟨next, h', n'⟩, hstage, heq⟩ := Option.bind_eq_some_iff.mp hstep
    have hworks : b.Works x _ := works_process hc hk hstage
    cases next <;> cases heq <;> exact hworks
  | shutdown k stage =>
    obtain ⟨n, hk, hstep⟩ := Option.bind_eq_some_iff.mp hstep
    obtain ⟨⟨next, h', n'⟩, hstage, heq⟩ := Option.bind_eq_some_iff.mp hstep
    have htends := ShutdownStage.tends_step? hstage
    cases next <;> cases heq <;> exact works_of_tends hk htends (attempting_of_set rfl)
  | «over» r => cases hstep

theorem works_step? {draw : Nat → Draw} {t : BusTask} (hstep : b.step? draw t = some b') :
    b.Works x b' := by
  cases t with
  | call i =>
    simp only [step?] at hstep
    split at hstep
    · exact works_stepCall? hstep
    · exact works_stepCall? hstep
  | worker k i => exact works_worker hstep
  | claimLoop k => exact works_onNode? (fun _ _ _ hrun => ClaimLoop.tends_step? hrun) hstep
  | reaper k => exact works_onNode? (fun _ _ _ hrun => Reaper.tends_step? hrun) hstep

/-- An action that leaves the workers to themselves. -/
theorem works_of_rest (hstore : b.hub.store.Tended b.hub.time b'.hub.store)
    (hbreakdowns : b'.hub.breakdowns = b.hub.breakdowns)
    (hnodes : ∀ m ∈ b'.nodes, ∀ a, .busy a ∈ m.workers → ∃ n ∈ b.nodes, .busy a ∈ n.workers)
    (hcalls : ∀ c ∈ b'.calls, ∀ a, c.attempting? = some a → ∃ c ∈ b.calls, c.attempting? = some a) :
    b.Works x b' := by
  refine .tends hstore (fun hnone => hbreakdowns.trans hnone) fun a ha => ?_
  rcases ha with ⟨m, hm, ha⟩ | ⟨c, hc, ha⟩
  · exact .inl (hnodes m hm a ha)
  · exact .inr (hcalls c hc a ha)

theorem busy_of_modify {f : Node → Node} (hf : ∀ n, (f n).workers = n.workers) (i : Nat) :
    ∀ m ∈ b.nodes.modify i f, ∀ a, .busy a ∈ m.workers → ∃ n ∈ b.nodes, .busy a ∈ n.workers := by
  intro m hm a ha
  obtain ⟨j, hj, rfl⟩ := List.mem_iff_getElem.mp hm
  rw [List.getElem_modify] at ha
  split at ha
  · exact ⟨_, List.getElem_mem _, hf _ ▸ ha⟩
  · exact ⟨_, List.getElem_mem _, ha⟩

theorem busy_of_drop (id : NodeId) :
    ∀ m ∈ (b.drop id).nodes, ∀ a, .busy a ∈ m.workers → ∃ n ∈ b.nodes, .busy a ∈ n.workers := by
  unfold drop
  split
  · exact busy_of_modify (f := Node.cancel) (fun _ => rfl) _
  · exact fun m hm a ha => ⟨m, hm, ha⟩

/-- Whatever happens does one of the listed things to attempts and to the store. -/
theorem works_act (b : Bus) (x : BusAction) : b.Works x (b.act x) := by
  have hsame : ∀ c ∈ b.calls, ∀ a, c.attempting? = some a → ∃ c ∈ b.calls, c.attempting? = some a :=
    fun c hc a ha => ⟨c, hc, ha⟩
  have hquiet : ∀ c', c'.attempting? = none →
      ∀ c ∈ b.calls ++ [c'], ∀ a, c.attempting? = some a → ∃ c ∈ b.calls, c.attempting? = some a := by
    intro c' hc' c hc a ha
    rcases List.mem_append.mp hc with hold | hnew
    · exact ⟨c, hold, ha⟩
    · rw [List.mem_singleton.mp hnew, hc'] at ha
      cases ha
  have hrest : ∀ m ∈ b.nodes, ∀ a, .busy a ∈ m.workers → ∃ n ∈ b.nodes, .busy a ∈ n.workers :=
    fun m hm a ha => ⟨m, hm, ha⟩
  cases x with
  | task t draw =>
    simp only [act]
    cases hstep : b.step? draw t with
    | none => exact works_of_rest (.inl rfl) rfl hrest hsame
    | some b' => exact works_step? hstep
  | add id config registry clock isAttached =>
    have hhub : (b.drop id).hub = b.hub := by
      unfold drop
      split <;> rfl
    refine works_of_rest (.inl (congrArg Hub.store hhub)) (congrArg Hub.breakdowns hhub) ?_ ?_
    · intro m hm a ha
      rcases List.mem_append.mp hm with hold | hnew
      · exact busy_of_drop id m hold a ha
      · rw [List.mem_singleton.mp hnew] at ha
        cases ha
    · rw [act, add, calls_drop]
      exact hsame
  | start i => exact works_getD_onNode? (f := fun h n => (n.start h).2) fun n => n.tends_start b.hub
  | post i type event keys =>
    refine works_getD_onNode? (f := fun h n => ((n.post h type event keys).2, n)) fun n => ?_
    obtain ⟨hstore, hbreakdowns⟩ := n.tended_post b.hub type event keys
    exact .of_tended hstore hbreakdowns rfl
  | process i => exact works_of_rest (.inl rfl) rfl hrest (hquiet _ rfl)
  | handle i e => exact works_of_rest (.inl rfl) rfl hrest (hquiet _ rfl)
  | resolve i e outcome =>
    refine .given rfl rfl fun a ha => ?_
    rcases ha with hnode | ⟨c, hc, ha⟩
    · exact .inl (.inl hnode)
    · rcases List.mem_append.mp hc with hold | hnew
      · exact .inl (.inr ⟨c, hold, ha⟩)
      · rw [List.mem_singleton.mp hnew] at ha
        exact .inr (Option.some.inj ha).symm
  | reapOnce i =>
    simp only [act, reapOnce]
    split
    · exact works_of_rest (.inl rfl) rfl hrest hsame
    · rename_i n j hk hbroken
      refine .tends (.inl rfl) (fun hnone => ?_) fun _ ha => ha
      rw [hnone] at hbroken
      cases hbroken
    · rename_i n hk _
      rcases hreap : n.claims.reap b.hub.store b.hub.time with ⟨e | es, s⟩
      · exact works_of_rest (.of_reap hreap) rfl hrest hsame
      · exact works_of_tends hk (.of_tended (.of_reap hreap) rfl rfl) hsame
  | shutdown i =>
    simp only [act, beginShutdown]
    split
    · rename_i n hk
      refine works_of_rest (.inl rfl) rfl (fun m hm a ha => ?_) (hquiet _ rfl)
      rcases List.mem_or_eq_of_mem_set hm with hold | rfl
      · exact ⟨m, hold, ha⟩
      · exact ⟨n, List.mem_of_getElem? hk, ha⟩
    · exact works_of_rest (.inl rfl) rfl hrest hsame
  | drop id =>
    have hhub : (b.drop id).hub = b.hub := by
      unfold drop
      split <;> rfl
    refine works_of_rest (.inl (congrArg Hub.store hhub)) (congrArg Hub.breakdowns hhub) (busy_of_drop id) ?_
    rw [act, calls_drop]
    exact hsame
  | operate op => exact .operates rfl rfl fun _ ha => ha
  | breakDown breakdowns => exact .breaks rfl rfl fun _ ha => ha
  | setTime start now => exact works_of_rest (.inl rfl) rfl hrest hsame
  | setClock i clock => exact works_of_rest (.inl rfl) rfl (busy_of_modify (f := fun n => { n with clock }) (fun _ => rfl) i) hsame

end Bus

end DurableQueue
