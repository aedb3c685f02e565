import DurableQueue.Proofs.Dispatch.Pipeline

/-!
What a shutdown does, wherever the tasks of the dispatcher are when it begins.

A shutdown lets claim loop, reaper and workers end, makes those stop that miss the deadline, and
then hands the claims back. `Node.IsShuttingDown` says where it is and what it told so far; every
step keeps it, and the last one ends as `ShutdownStage.Ends` says. Tasks that have stopped stay so.
-/

namespace DurableQueue

/-- What a shutdown does to the tasks of its dispatcher and asks of the store. -/
inductive ShutdownEvent where
  /-- Tasks that missed the deadline are made to stop. -/
  | cut
  /-- The store was asked to hand the claims back, and answered this. -/
  | released (answer : Except StoreError (List Entry))

/-- What a step of a shutdown tells, from the dispatcher before and after it. -/
def ShutdownStage.tells (h : Hub) (n n' : Node) : ShutdownStage → List ShutdownEvent
  | joining _ => if n.isBackgroundOver = n'.isBackgroundOver then [] else [.cut]
  | finishing _ _ => if n.areWorkersOver = n'.areWorkersOver then [] else [.cut]
  | releasing _ _ => [.released (h.store.release n.id h.time).1]

namespace Bus

/-- What an action tells of the shutdown that is the call of a number. -/
def shutdownOf (b : Bus) (c : Nat) (x : BusAction) : List ShutdownEvent :=
  match x, b.calls[c]? with
  | .task (.call i) _, some (.shutdown k stage) =>
    match b.nodes[k]?, (b.act x).nodes[k]? with
    | some n, some n' => if i = c then stage.tells b.hub n n' else []
    | _, _ => []
  | _, _ => []

/-- What a run tells of a shutdown. -/
def shutdownLog (b : Bus) (c : Nat) (actions : List BusAction) : List ShutdownEvent :=
  b.tellOver (fun b x => b.shutdownOf c x) actions

end Bus

/-- How the last step of a shutdown ends it, after all it told. -/
inductive ShutdownStage.Ends (id : NodeId) (grace : Span) (h h' : Hub) : List ShutdownEvent →
    CallResult → Prop where
  /-- All claims of the node are handed back, at the first attempt or after one that a failure hit.
  The answer tells whether tasks were made to stop. -/
  | released {cuts : Nat} {tries : List ShutdownEvent}
    (tried : tries = [] ∨ ∃ e : StoreError, e.isTransient = true ∧ tries = [.released (.error e)])
    (unharmed : h.store.failuresLeft = 0)
    (store : h'.store = { h.store with
      live := h.store.live.map fun e => if e.isHeldBy id
        then { e with
          state := .available, processingOwner := none
          updatedTime := h.time, nextAvailableTime := h.time }
        else e }) :
    Ends id grace h h'
      (List.replicate cuts .cut ++ tries ++
        [.released (.ok ((h.store.live.filter (·.isHeldBy id)).map (·.released h.time)))])
      (if cuts = 0 then .done else .error (.shutdownTimeout grace))
  /-- The second attempt is hit by a failure too. The tables are left as they are. -/
  | failed {cuts : Nat} {e : StoreError} (tried : e.isTransient = true)
    (harmed : h.store.failuresLeft ≠ 0)
    (store : h'.store = { h.store with failuresLeft := h.store.failuresLeft - 1 }) :
    Ends id grace h h'
      (List.replicate cuts .cut ++ [.released (.error e), .released (.error .injected)])
      (.error (.ofStore .injected))

/-- Where a shutdown of a dispatcher is, and what it told. Once it goes on to the workers, claim
loop and reaper have stopped, and once it hands back the claims, the workers too. -/
inductive Node.IsShuttingDown (k : Nat) (n : Node) : Call → List ShutdownEvent → Prop where
  | joining (deadline : Nat) : IsShuttingDown k n (.shutdown k (.joining deadline)) []
  | finishing (deadline cuts : Nat) {timedOut : Bool} (cut : timedOut = true ↔ cuts ≠ 0)
    (background : n.isBackgroundOver = true) :
    IsShuttingDown k n (.shutdown k (.finishing deadline timedOut)) (List.replicate cuts .cut)
  | releasing (cuts : Nat) {again timedOut : Bool} {tries : List ShutdownEvent}
    (cut : timedOut = true ↔ cuts ≠ 0) (background : n.isBackgroundOver = true)
    (workers : n.areWorkersOver = true)
    (tried : again = false ∧ tries = [] ∨
      again = true ∧ ∃ e : StoreError, e.isTransient = true ∧ tries = [.released (.error e)]) :
    IsShuttingDown k n (.shutdown k (.releasing again timedOut)) (List.replicate cuts .cut ++ tries)
  | over (r : CallResult) (log : List ShutdownEvent) : IsShuttingDown k n (.over r) log

variable {h h' : Hub} {n n' : Node} {k : Nat} {call : Call} {log : List ShutdownEvent}

/-- A release hands back what a node holds, unless a failure hits it. -/
theorem Store.release_eq (s : Store) (id : NodeId) (now : Timestamp) :
    s.release id now = if s.failuresLeft = 0
      then (.ok ((s.live.filter (·.isHeldBy id)).map (·.released now)),
        { s with live := s.live.map fun e => if e.isHeldBy id then e.released now else e })
      else (.error .injected, { s with failuresLeft := s.failuresLeft - 1 }) := by
  unfold release guarded
  split
  · rename_i hleft
    rw [if_pos hleft]
    rfl
  · rename_i left hleft
    rw [if_neg (hleft ▸ Nat.succ_ne_zero left), hleft]
    rfl

/-- Unless both attempts fail, nothing is held by the node any more. -/
theorem ShutdownStage.Ends.none_held {id : NodeId} {grace : Span} {r : CallResult}
    (hends : Ends id grace h h' log r)
    (hr : r = .done ∨ r = .error (.shutdownTimeout grace)) :
    ∀ e ∈ h'.store.live, e.isHeldBy id = false := by
  cases hends with
  | released tried unharmed store =>
    intro e he
    rw [store] at he
    obtain ⟨e', -, rfl⟩ := List.mem_map.mp he
    split
    · rfl
    · rename_i hfree
      exact Bool.eq_false_iff.mpr hfree
  | failed tried harmed store => rcases hr with hr | hr <;> cases hr

namespace Node

theorem areWorkersOver_abortWorkers (n : Node) : n.abortWorkers.areWorkersOver = true := by
  obtain ⟨stats, habort, -⟩ := n.abortWorkers_eq
  refine areWorkersOver_iff.mpr fun w hw => ?_
  rw [habort] at hw
  obtain ⟨-, -, rfl⟩ := List.mem_map.mp hw
  rfl

namespace IsShuttingDown

/-- What others do while a shutdown is in progress does not set its dispatcher going again. -/
theorem kept (hn : n.IsShuttingDown k call log)
    (hbackground : n.isBackgroundOver = true → n'.isBackgroundOver = true)
    (hworkers : n.areWorkersOver = true → n'.areWorkersOver = true) :
    n'.IsShuttingDown k call log := by
  cases hn with
  | joining deadline => exact .joining deadline
  | finishing deadline cuts cut background =>
    exact .finishing deadline cuts cut (hbackground background)
  | releasing cuts cut background workers tried =>
    exact .releasing cuts cut (hbackground background) (hworkers workers) tried
  | «over» r log => exact .over r log

/-- A step of a shutdown goes on or ends it. Only the last one changes the tables. -/
theorem step {stage : ShutdownStage} {next : ShutdownStage ⊕ CallResult}
    (hn : n.IsShuttingDown k (.shutdown k stage) log)
    (hstep : stage.step? h n = some (next, h', n')) :
    (∃ stage', next = .inl stage' ∧
        n'.IsShuttingDown k (.shutdown k stage') (log ++ stage.tells h n n') ∧
        ∃ left, h'.store = { h.store with failuresLeft := left }) ∨
      ∃ r, next = .inr r ∧
        ShutdownStage.Ends n.id n.config.shutdownTimeout h h' (log ++ stage.tells h n n') r ∧
        n'.isBackgroundOver = true ∧ n'.areWorkersOver = true := by
  cases hn with
  | joining deadline =>
    simp only [ShutdownStage.step?] at hstep
    split at hstep
    · rename_i hover
      cases hstep
      refine .inl ⟨_, rfl, ?_, h.store.failuresLeft, rfl⟩
      rw [ShutdownStage.tells, if_pos rfl]
      exact .finishing deadline 0 (by simp) hover
    · rename_i hrunning
      split at hstep
      · cases hstep
        have hover : (n.abortBackground h).2.isBackgroundOver = true := rfl
        refine .inl ⟨_, rfl, ?_, h.store.failuresLeft, ?_⟩
        · rw [ShutdownStage.tells, if_neg (hover ▸ hrunning)]
          exact .finishing deadline 1 (by simp) hover
        · unfold abortBackground ClaimLoop.stop
          cases n.subscription <;> rfl
      · cases hstep
  | @finishing deadline cuts timedOut cut background =>
    simp only [ShutdownStage.step?] at hstep
    split at hstep
    · rename_i hover
      cases hstep
      refine .inl ⟨_, rfl, ?_, h.store.failuresLeft, rfl⟩
      have hcounted : (n.count fun s => { s with activeWorkers := 0 }).areWorkersOver =
          n.areWorkersOver := rfl
      rw [ShutdownStage.tells, if_pos hcounted.symm]
      exact .releasing cuts cut background hover (.inl ⟨rfl, rfl⟩)
    · rename_i hrunning
      split at hstep
      · cases hstep
        have hover := n.areWorkersOver_abortWorkers
        have hbackground : n.abortWorkers.isBackgroundOver = true := by
          obtain ⟨stats, habort, -⟩ := n.abortWorkers_eq
          rw [habort]
          exact background
        refine .inl ⟨_, rfl, ?_, h.store.failuresLeft, rfl⟩
        have htells : (ShutdownStage.finishing deadline timedOut).tells h n
            (n.abortWorkers.count fun s => { s with activeWorkers := 0 }) = [.cut] :=
          if_neg fun hsame => hrunning (hsame.trans hover)
        rw [htells, ← List.replicate_succ', ← List.append_nil (List.replicate (cuts + 1) _)]
        exact .releasing (cuts + 1) (by simp) hbackground hover (.inl ⟨rfl, rfl⟩)
      · cases hstep
  | @releasing cuts again timedOut tries cut background workers tried =>
    have htells : (ShutdownStage.releasing again timedOut).tells h n n' =
        [.released (h.store.release n.id h.time).1] := rfl
    rw [htells]
    simp only [ShutdownStage.step?] at hstep
    rw [Store.release_eq] at hstep ⊢
    by_cases hleft : h.store.failuresLeft = 0
    · rw [if_pos hleft] at hstep ⊢
      cases hstep
      refine .inr ⟨_, rfl, ?_, background, workers⟩
      have hresult : ShutdownStage.result n timedOut =
          if cuts = 0 then .done else .error (.shutdownTimeout n.config.shutdownTimeout) := by
        cases timedOut with
        | false => rw [if_pos (by simpa using cut)]; rfl
        | true => rw [if_neg (cut.mp rfl)]; rfl
      rw [hresult]
      refine .released (tried.imp And.right And.right) hleft ?_
      rfl
    · rw [if_neg hleft] at hstep ⊢
      rcases tried with ⟨rfl, rfl⟩ | ⟨rfl, e, htransient, rfl⟩
      · cases hstep
        refine .inl ⟨_, rfl, ?_, h.store.failuresLeft - 1, rfl⟩
        rw [List.append_nil]
        exact .releasing cuts cut background workers (.inr ⟨rfl, .injected, rfl, rfl⟩)
      · cases hstep
        refine .inr ⟨_, rfl, ?_, background, workers⟩
        rw [List.append_assoc]
        exact .failed htransient hleft rfl

end IsShuttingDown

end Node

namespace Bus

variable {b b' : Bus} {c : Nat} {x : BusAction}

/-! A call goes on only by its own steps. -/

theorem calls_onNode? {i : Nat} {f : Hub → Node → Option (Hub × Node)}
    (hstep : b.onNode? i f = some b') : b'.calls = b.calls := by
  obtain ⟨n, -, hstep⟩ := Option.bind_eq_some_iff.mp hstep
  obtain ⟨⟨h', n'⟩, -, heq⟩ := Option.bind_eq_some_iff.mp hstep
  cases heq
  rfl

theorem calls_getD_onNode? (b : Bus) (i : Nat) (f : Hub → Node → Option (Hub × Node)) :
    ((b.onNode? i f).getD b).calls = b.calls := by
  cases hstep : b.onNode? i f with
  | none => rfl
  | some b' => exact calls_onNode? hstep

theorem calls_drop (b : Bus) (id : NodeId) : (b.drop id).calls = b.calls := by
  unfold drop
  split <;> rfl

theorem calls_stepCall? {draw : Draw} {i : Nat} (hstep : b.stepCall? draw i = some b') :
    ∃ call, b'.calls = b.calls.set i call := by
  obtain ⟨call, -, hstep⟩ := Option.bind_eq_some_iff.mp hstep
  cases call with
  | process node stage | shutdown node stage =>
    obtain ⟨n, -, hstep⟩ := Option.bind_eq_some_iff.mp hstep
    obtain ⟨⟨next, h', n'⟩, -, heq⟩ := Option.bind_eq_some_iff.mp hstep
    cases heq
    exact ⟨_, rfl⟩
  | «over» r => cases hstep

theorem calls_step? {draw : Nat → Draw} {t : BusTask} (hstep : b.step? draw t = some b') :
    b'.calls = b.calls ∨ ∃ i call, t = .call i ∧ b'.calls = b.calls.set i call := by
  cases t with
  | call i =>
    simp only [step?] at hstep
    split at hstep
    · obtain ⟨call, hcalls⟩ := calls_stepCall? hstep
      exact .inr ⟨i, call, rfl, hcalls⟩
    · obtain ⟨call, hcalls⟩ := calls_stepCall? hstep
      exact .inr ⟨i, call, rfl, hcalls⟩
  | worker node i => exact .inl (calls_onNode? (f := fun h n => Worker.step? (draw node) h n i) hstep)
  | claimLoop node => exact .inl (calls_onNode? hstep)
  | reaper node => exact .inl (calls_onNode? hstep)

/-- Whatever else happens leaves a call where it is. -/
theorem getElem?_calls_act (hc : b.calls[c]? = some call) (hx : ∀ draw, x ≠ .task (.call c) draw) :
    (b.act x).calls[c]? = some call := by
  have hlong : c < b.calls.length := (List.getElem?_eq_some_iff.mp hc).1
  have hadded (more : Call) : (b.calls ++ [more])[c]? = some call :=
    (List.getElem?_append_left hlong).trans hc
  cases x with
  | task t draw =>
    simp only [act]
    cases hstep : b.step? draw t with
    | none => exact hc
    | some b' =>
      rcases calls_step? hstep with hcalls | ⟨i, call', rfl, hcalls⟩
      · exact hcalls ▸ hc
      · have hother : i ≠ c := fun heq => hx draw (heq ▸ rfl)
        exact hcalls ▸ (List.getElem?_set_ne hother).trans hc
  | add id config registry clock isAttached => exact (b.calls_drop _).symm ▸ hc
  | start i => exact (b.calls_getD_onNode? i _).symm ▸ hc
  | post i type event keys => exact (b.calls_getD_onNode? i _).symm ▸ hc
  | process i => exact hadded _
  | handle i e => exact hadded _
  | resolve i e outcome => exact hadded _
  | reapOnce i =>
    simp only [act, reapOnce]
    split
    · exact hc
    · exact hc
    · split <;> exact hc
  | shutdown i =>
    simp only [act, beginShutdown]
    split
    · exact hadded _
    · exact hc
  | drop id => exact (b.calls_drop id).symm ▸ hc
  | operate op => exact hc
  | breakDown breakdowns => exact hc
  | setTime start now => exact hc
  | setClock i clock => exact hc

/-- What becomes of a call that shuts a dispatcher down. -/
def afterShutdown (k : Nat) : ShutdownStage ⊕ CallResult → Call
  | .inl stage => .shutdown k stage
  | .inr r => .over r

theorem act_shutdown {stage : ShutdownStage} (hc : b.calls[c]? = some (.shutdown k stage))
    (hn : b.nodes[k]? = some n) (draw : Nat → Draw) :
    (stage.step? b.hub n = none ∧ b.act (.task (.call c) draw) = b) ∨
      ∃ next h' n', stage.step? b.hub n = some (next, h', n') ∧
        b.act (.task (.call c) draw) =
          { b with
            hub := h'
            nodes := b.nodes.set k n'
            calls := b.calls.set c (afterShutdown k next) } := by
  simp only [act, step?, hc, stepCall?, hn, bind, Option.bind_some]
  rcases stage.step? b.hub n with _ | ⟨next, h', n'⟩
  · exact .inl ⟨rfl, rfl⟩
  · cases next <;> exact .inr ⟨_, h', n', rfl, rfl⟩

theorem act_over {r : CallResult} (hc : b.calls[c]? = some (.over r)) (draw : Nat → Draw) :
    b.act (.task (.call c) draw) = b := by
  simp only [act, step?, hc, stepCall?, bind, Option.bind_some]
  rfl

theorem tells_of_waiting {stage : ShutdownStage} (hwaits : stage.step? h n = none) :
    stage.tells h n n = [] := by
  cases stage with
  | joining deadline => exact if_pos rfl
  | finishing deadline timedOut => exact if_pos rfl
  | releasing again timedOut =>
    simp only [ShutdownStage.step?] at hwaits
    split at hwaits
    · cases hwaits
    · split at hwaits <;> cases hwaits

theorem shutdownOf_eq_nil (hx : ∀ draw, x ≠ .task (.call c) draw) : b.shutdownOf c x = [] := by
  unfold shutdownOf
  split
  · rename_i i draw k stage hc
    have hother : i ≠ c := fun heq => hx draw (heq ▸ rfl)
    split
    · exact if_neg hother
    · rfl
  · rfl

/-- What happens while a shutdown is in progress: it stays or goes on, or it ends with all tasks of
its dispatcher stopped. -/
theorem shuttingDown_act (hn : b.nodes[k]? = some n) (hc : b.calls[c]? = some call)
    (hgoing : n.IsShuttingDown k call log) (hx : x ≠ .start k) :
    ∃ n' call', (b.act x).nodes[k]? = some n' ∧ (b.act x).calls[c]? = some call' ∧ n'.id = n.id ∧
      n'.config = n.config ∧ n'.IsShuttingDown k call' (log ++ b.shutdownOf c x) ∧
      ∀ r, call' = .over r → call = .over r ∨
        ShutdownStage.Ends n.id n.config.shutdownTimeout b.hub (b.act x).hub
            (log ++ b.shutdownOf c x) r ∧
          n'.isBackgroundOver = true ∧ n'.areWorkersOver = true := by
  by_cases hown : ∃ draw, x = .task (.call c) draw
  · obtain ⟨draw, rfl⟩ := hown
    cases call with
    | process i stage => cases hgoing
    | «over» r =>
      rw [act_over hc]
      exact ⟨n, .over r, hn, hc, rfl, rfl, .over r _, fun r' heq => .inl heq⟩
    | shutdown i stage =>
      obtain rfl : i = k := by cases hgoing <;> rfl
      rcases act_shutdown hc hn draw with ⟨hwaits, hact⟩ | ⟨next, h', n', hstep, hact⟩
      · have htells : b.shutdownOf c (.task (.call c) draw) = [] := by
          simp only [shutdownOf, hc, hact, hn, ↓reduceIte]
          exact tells_of_waiting hwaits
        rw [hact, htells, List.append_nil]
        exact ⟨n, _, hn, hc, rfl, rfl, hgoing, fun r heq => by cases heq⟩
      · have hn' : (b.act (.task (.call c) draw)).nodes[i]? = some n' := by
          rw [hact]
          exact getElem?_set_of_some hn n'
        have hc' : (b.act (.task (.call c) draw)).calls[c]? = some (afterShutdown i next) := by
          rw [hact]
          exact getElem?_set_of_some hc _
        have htells : b.shutdownOf c (.task (.call c) draw) = stage.tells b.hub n n' := by
          simp only [shutdownOf, hc, hn, hn', ↓reduceIte]
        have hnode := Node.Step.of_shutdown hstep
        rw [htells]
        refine ⟨n', _, hn', hc', hnode.id_eq, hnode.config_eq, ?_⟩
        rcases hgoing.step hstep with ⟨stage', rfl, hgoing', -⟩ | ⟨r, rfl, hends, hover⟩
        · exact ⟨hgoing', fun r heq => by cases heq⟩
        · refine ⟨.over r _, fun r' heq => .inr ⟨?_, hover⟩⟩
          cases heq
          rw [hact]
          exact hends
  · have hother : ∀ draw, x ≠ .task (.call c) draw := fun draw heq => hown ⟨draw, heq⟩
    rw [shutdownOf_eq_nil hother, List.append_nil]
    obtain ⟨n', hn', hat⟩ := (b.change_act x).at_node hn
    refine ⟨n', call, hn', getElem?_calls_act hc hother, ?_⟩
    cases hat with
    | step step =>
      exact ⟨step.id_eq, step.config_eq, hgoing.kept step.isBackgroundOver step.areWorkersOver,
        fun r heq => .inl heq⟩
    | begins asked begins => exact absurd asked hx
    | elsewhere elsewhere => exact ⟨rfl, rfl, hgoing, fun r heq => .inl heq⟩

/-- A call that is over stays so. -/
theorem over_run {r : CallResult} (hc : b.calls[c]? = some (.over r)) (actions : List BusAction) :
    (b.run actions).calls[c]? = some (.over r) := by
  induction actions generalizing b with
  | nil => exact hc
  | cons y rest ih =>
    refine ih ?_
    by_cases hown : ∃ draw, y = .task (.call c) draw
    · obtain ⟨draw, rfl⟩ := hown
      rwa [act_over hc]
    · exact getElem?_calls_act hc fun draw heq => hown ⟨draw, heq⟩

/-- A step of a shutdown that does not end it leaves the tables alone. -/
theorem store_act_shutdown (hn : b.nodes[k]? = some n) (hc : b.calls[c]? = some call)
    (hgoing : n.IsShuttingDown k call log) (draw : Nat → Draw)
    (hover : ∀ r, (b.act (.task (.call c) draw)).calls[c]? ≠ some (.over r)) :
    ∃ left, (b.act (.task (.call c) draw)).hub.store = { b.hub.store with failuresLeft := left } := by
  cases call with
  | process i stage => cases hgoing
  | «over» r => exact ⟨b.hub.store.failuresLeft, by rw [act_over hc]⟩
  | shutdown i stage =>
    obtain rfl : i = k := by cases hgoing <;> rfl
    rcases act_shutdown hc hn draw with ⟨-, hact⟩ | ⟨next, h', n', hstep, hact⟩
    · exact ⟨b.hub.store.failuresLeft, by rw [hact]⟩
    · rcases hgoing.step hstep with ⟨stage', -, -, hstore⟩ | ⟨r, rfl, -⟩
      · rwa [hact]
      · refine absurd ?_ (hover r)
        rw [hact]
        exact getElem?_set_of_some hc _

/-- A shutdown begins as a new call. -/
theorem shuttingDown_beginShutdown (hn : b.nodes[k]? = some n) :
    ∃ n' call, (b.act (.shutdown k)).nodes[k]? = some n' ∧
      (b.act (.shutdown k)).calls[b.calls.length]? = some call ∧ n'.id = n.id ∧ n'.config = n.config ∧
      n'.IsShuttingDown k call (b.shutdownLog b.calls.length [.shutdown k]) := by
  simp only [act, beginShutdown, hn]
  exact ⟨n.cancel, _, getElem?_set_of_some hn _, List.getElem?_concat_length, rfl, rfl, .joining _⟩

theorem shuttingDown_run (hn : b.nodes[k]? = some n) {after : List BusAction}
    (hasked : ∀ y ∈ after, y ≠ .start k) :
    ∃ n' call, (b.run (.shutdown k :: after)).nodes[k]? = some n' ∧
      (b.run (.shutdown k :: after)).calls[b.calls.length]? = some call ∧
      n'.id = n.id ∧ n'.config = n.config ∧
      n'.IsShuttingDown k call (b.shutdownLog b.calls.length (.shutdown k :: after)) := by
  induction after using List.reverseRecOn with
  | nil => exact shuttingDown_beginShutdown hn
  | append_singleton after y ih =>
    obtain ⟨hafter, hy⟩ := List.forall_mem_append.mp hasked
    obtain ⟨m, call, hm, hc, hid, hconfig, hgoing⟩ := ih hafter
    obtain ⟨m', call', hm', hc', hid', hconfig', hgoing', -⟩ :=
      shuttingDown_act hm hc hgoing (hy y (List.mem_singleton_self y))
    rw [← List.cons_append, run_concat, shutdownLog, tellOver_concat]
    exact ⟨m', call', hm', hc', hid'.trans hid, hconfig'.trans hconfig, hgoing'⟩

/-- Tasks that have stopped take no step. -/
theorem step?_eq_none_of_over (hn : b.nodes[k]? = some n) (hbackground : n.isBackgroundOver = true)
    (hworkers : n.areWorkersOver = true) (draw : Nat → Draw) :
    (∀ i, b.step? draw (.worker k i) = none) ∧ b.step? draw (.claimLoop k) = none ∧
      b.step? draw (.reaper k) = none := by
  obtain ⟨hloop, hreaper⟩ := Node.isBackgroundOver_iff.mp hbackground
  refine ⟨fun i => ?_, ?_, ?_⟩
  · have hstopped : n.workers[i]? = none ∨ n.workers[i]? = some .stopped := by
      cases hi : n.workers[i]? with
      | none => exact .inl rfl
      | some w =>
        exact .inr (congrArg some (Node.areWorkersOver_iff.mp hworkers w (List.mem_of_getElem? hi)))
    rcases hstopped with hi | hi <;> simp [step?, onNode?, hn, Worker.step?, hi]
  · rcases hloop with hloop | hloop <;> simp [step?, onNode?, hn, ClaimLoop.step?, hloop]
  · rcases hreaper with hreaper | hreaper <;> simp [step?, onNode?, hn, Reaper.step?, hreaper]

/-- A shutdown of a dispatcher in any state, with whatever happens meanwhile. When it ends, all
tasks of the dispatcher have stopped, and it has told of one attempt to hand the claims back, or of
two if a failure hit the first. Unless a failure hit the second too, no live entry is held by the
node any more, and every other entry is as it was. The steps before the last leave the tables alone,
and an entry that was resolved stays so until it is claimed anew. -/
theorem shutdown_gives_back (start : Timestamp) (before after : List BusAction) (x : BusAction)
    (b₀ b : Bus) (k : Nat) (n : Node) (r : CallResult) (hb₀ : b₀ = (startingAt start).run before)
    (hb : b = b₀.run (.shutdown k :: after)) (hn : b₀.nodes[k]? = some n)
    (hasked : ∀ y ∈ after ++ [x], y ≠ .start k)
    (hgoing : ∀ r', b.calls[b₀.calls.length]? ≠ some (.over r'))
    (hover : (b.act x).calls[b₀.calls.length]? = some (.over r)) :
    (∀ draw, (∀ i, (b.act x).step? draw (.worker k i) = none) ∧
      (b.act x).step? draw (.claimLoop k) = none ∧ (b.act x).step? draw (.reaper k) = none) ∧
    ShutdownStage.Ends n.id n.config.shutdownTimeout b.hub (b.act x).hub
      (b₀.shutdownLog b₀.calls.length (.shutdown k :: after ++ [x])) r ∧
    (r = .done ∨ r = .error (.shutdownTimeout n.config.shutdownTimeout) →
      ∀ e ∈ (b.act x).hub.store.live, e.isHeldBy n.id = false) ∧
    (∀ mid rest draw, after = mid ++ .task (.call b₀.calls.length) draw :: rest →
      ∃ left, ((b₀.run (.shutdown k :: mid)).act (.task (.call b₀.calls.length) draw)).hub.store =
        { (b₀.run (.shutdown k :: mid)).hub.store with failuresLeft := left }) ∧
    (∀ mid rest, after = mid ++ rest → ∀ e ∈ (b₀.run (.shutdown k :: mid)).hub.store.stored,
      e.state ≠ .inProcessing → e ∈ (b.act x).hub.store.stored ∨
        e.state = .available ∧ ∃ more rest', rest ++ [x] = more ++ rest' ∧ ∃ claimer time,
          e.claimedBy claimer time ∈ (b₀.run (.shutdown k :: (mid ++ more))).hub.store.live) := by
  obtain ⟨hafter, hx⟩ := List.forall_mem_append.mp hasked
  obtain ⟨m, call, hm, hc, hid, hconfig, hgoing'⟩ := shuttingDown_run hn hafter
  rw [← hb] at hm hc
  obtain ⟨m', call', hm', hc', -, -, -, hends⟩ :=
    shuttingDown_act hm hc hgoing' (hx x (List.mem_singleton_self x))
  obtain rfl : call' = .over r := Option.some.inj (hc'.symm.trans hover)
  obtain ⟨hends, hbackground, hworkers⟩ := (hends r rfl).resolve_left fun heq => hgoing r (heq ▸ hc)
  have hlog : b₀.shutdownLog b₀.calls.length (.shutdown k :: after ++ [x]) =
      b₀.shutdownLog b₀.calls.length (.shutdown k :: after) ++ b.shutdownOf b₀.calls.length x := by
    rw [hb]
    exact b₀.tellOver_concat _ _ x
  rw [hid, hconfig, ← hlog] at hends
  refine ⟨step?_eq_none_of_over hm' hbackground hworkers, hends, hends.none_held, ?_, ?_⟩
  · rintro mid rest draw rfl
    obtain ⟨m₁, call₁, hm₁, hc₁, -, -, hgoing₁⟩ :=
      shuttingDown_run hn (List.forall_mem_append.mp hafter).1
    refine store_act_shutdown hm₁ hc₁ hgoing₁ draw fun r' hover' => hgoing r' ?_
    rw [hb, ← List.cons_append, run_append]
    exact over_run hover' rest
  · rintro mid rest rfl e he hfree
    have hwell : (b₀.run (.shutdown k :: mid)).hub.store.IsWellFormed := by
      rw [hb₀, ← run_append]
      exact isWellFormed_run start _
    have hrun (more : List BusAction) :
        (b₀.run (.shutdown k :: mid)).run more = b₀.run (.shutdown k :: (mid ++ more)) :=
      (b₀.run_append (.shutdown k :: mid) more).symm
    have hkept := kept_or_claimed hwell he hfree (rest ++ [x])
    simp only [hrun] at hkept
    rwa [← List.append_assoc, ← List.cons_append, run_concat, ← hb] at hkept

/-- A dispatcher without handlers that gives its tasks no time to end. -/
def impatient : DispatchConfig :=
  { DispatchConfig.standard with
    maxEntriesClaimed := 3, eventQueueCapacity := 3, maxDispatchThreads := 2
    shutdownTimeout := .zero }

/-- Node `b` holds the first of four jobs. A dispatcher of node `a` claims the others, of which one
worker ends one, the other takes one, and one waits in the queue. -/
def busyRun : List BusAction :=
  let job : BusAction := .operate (.append ⟨⟨"job", []⟩, ⟨"b"⟩, .none⟩)
  let loop : BusAction := .task (.claimLoop 0) fun _ _ => none
  let worker (i : Nat) : BusAction := .task (.worker 0 i) fun _ _ => none
  [.add ⟨"a"⟩ impatient .empty .shared false, job, job, job, job, .operate (.claim 1 ⟨"b"⟩ none),
    .start 0, loop, loop, loop, loop, loop, worker 0, worker 0, worker 0, worker 0, worker 1]

/-- What follows when it is shut down: all tasks are made to stop, and a failure hits the first
attempt to hand the claims back. -/
def hastyShutdown : List BusAction :=
  let call : BusAction := .task (.call 0) fun _ _ => none
  [call, call, .operate (.failNext 1), call]

theorem shutdown_gives_back_hastyShutdown :
    let b₀ := (startingAt .epoch).run busyRun
    let b := b₀.run (.shutdown 0 :: hastyShutdown)
    let x : BusAction := .task (.call 0) fun _ _ => none
    b₀.calls.length = 0 ∧ (b.act x).calls[0]? = some (.over (.error (.shutdownTimeout .zero))) ∧
    (b.hub.store.live.map fun e => (e.state, e.processingOwner)) =
      [(.inProcessing, some ⟨"b"⟩), (.failed, none), (.inProcessing, some ⟨"a"⟩),
        (.inProcessing, some ⟨"a"⟩)] ∧
    ((b.act x).hub.store.live.map fun e => (e.state, e.processingOwner)) =
      [(.inProcessing, some ⟨"b"⟩), (.failed, none), (.available, none), (.available, none)] ∧
    ∃ n, b₀.nodes[0]? = some n ∧
      ShutdownStage.Ends n.id n.config.shutdownTimeout b.hub (b.act x).hub
        (b₀.shutdownLog 0 (.shutdown 0 :: hastyShutdown ++ [x]))
        (.error (.shutdownTimeout .zero)) := by
  have hcalls : ((startingAt .epoch).run busyRun).calls.length = 0 := by decide +kernel
  have hnodes : ((startingAt .epoch).run busyRun).nodes.length = 1 := by decide +kernel
  have hn := List.getElem?_eq_getElem (hnodes ▸ Nat.zero_lt_one)
  have hover : ((((startingAt .epoch).run busyRun).run (.shutdown 0 :: hastyShutdown)).act
      (.task (.call 0) fun _ _ => none)).calls[0]? =
        some (.over (.error (.shutdownTimeout .zero))) := by rfl
  have hends := shutdown_gives_back .epoch busyRun hastyShutdown
    (.task (.call 0) fun _ _ => none) _ _ 0 _ (.error (.shutdownTimeout .zero)) rfl rfl hn
    (by simp [hastyShutdown]) (by rw [hcalls]; intro r heq; cases heq) (by rw [hcalls]; exact hover)
  rw [hcalls] at hends
  exact ⟨hcalls, hover, by decide +kernel, by decide +kernel, _, hn, hends.2.1⟩

end Bus

end DurableQueue
