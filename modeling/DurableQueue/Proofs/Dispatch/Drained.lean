import DurableQueue.Proofs.Dispatch.BusChange
import DurableQueue.Proofs.Dispatch.Drain
import Mathlib.Data.Set.List
import Mathlib.Order.WellFounded

/-!
Processing batch after batch comes to an end.

A dispatcher is asked for one batch after the other while nobody else uses the store and the clock of the
store stands still (`Bus.IsDrain`). However its handlers end, it comes to a call that claims nothing, and then
no entry is due (`Bus.drains_from`). A failed entry may be due again at once, before entries that were
appended after it, so neither the entries nor a place among them are what decreases: it is the `Quota` of the
entries that are due.
-/

namespace DurableQueue

/-- What is done to drain a store with the dispatcher of this number. It is asked for a batch when no call is
in progress, a call takes its next step, or time passes for handlers while the clock of the store stands
still. -/
def BusAction.IsDraining (b : Bus) (k : Nat) : BusAction → Prop
  | .process node => node = k ∧ b.areCallsOver = true
  | .task (.call _) _ => True
  | .setTime first now => ({ Hub.startingAt first with now } : Hub).time = b.hub.time
  | _ => False

instance (b : Bus) (k : Nat) (x : BusAction) : Decidable (x.IsDraining b k) :=
  match x with
  | .process node => inferInstanceAs (Decidable (node = k ∧ b.areCallsOver = true))
  | .task (.call _) _ => isTrue trivial
  | .setTime first now =>
    inferInstanceAs (Decidable (({ Hub.startingAt first with now } : Hub).time = b.hub.time))
  | .task (.worker _ _) _ | .task (.claimLoop _) _ | .task (.reaper _) _ | .add .. | .start _ | .post ..
  | .handle .. | .resolve .. | .reapOnce _ | .shutdown _ | .drop _ | .operate _ | .breakDown _
  | .setClock .. => isFalse id

def Call.stage? : Call → Option ProcessStage
  | .process _ stage => some stage
  | _ => none

namespace Bus

/-- A run that drains the store. -/
def IsDrain (k : Nat) : Bus → List BusAction → Prop
  | _, [] => True
  | b, x :: rest => x.IsDraining b k ∧ IsDrain k (b.act x) rest

instance decidableIsDrain (k : Nat) : (b : Bus) → (xs : List BusAction) → Decidable (b.IsDrain k xs)
  | _, [] => isTrue trivial
  | b, x :: rest =>
    have := decidableIsDrain k (b.act x) rest
    inferInstanceAs (Decidable (x.IsDraining b k ∧ (b.act x).IsDrain k rest))

/-- Something is done. -/
def Advances (b : Bus) : BusAction → Prop
  | .process _ => True
  | .task t draw => b.step? draw t ≠ none
  | _ => False

/-- What was answered to the calls of a run. -/
def answers (b : Bus) (xs : List BusAction) : List CallResult := (b.run xs).results.drop b.results.length

/-- Where the call in progress is. -/
def stage? (b : Bus) : Option ProcessStage := b.calls.findSome? Call.stage?

/-- What the dispatcher may dispatch at the time of the store. -/
def quota (b : Bus) (n : Node) : Quota :=
  ⟨n.claims.ownerFilter, b.hub.time, n.config.retryPolicy.maxFailureRetries⟩

/-- The dispatcher of this number is alone with the store and has at most one call to answer. -/
structure Serves (b : Bus) (k : Nat) (q : Quota) : Prop where
  node : ∃ n, b.nodes[k]? = some n ∧ n.DrawsOn q
  hub : b.hub.IsCalm q
  calls : b.calls = b.results.map .over ++ (b.stage?.map (.process k)).toList
  kept : ∀ stage ∈ b.stage?, stage.IsKept q b.hub.store

variable {b b' : Bus} {k : Nat} {q : Quota} {x : BusAction} {xs : List BusAction} {rs : List CallResult}
  {stage? : Option ProcessStage} {stage : ProcessStage} {n : Node} {ops : List (StoreOp × Timestamp)}

/-- The calls tell what was answered and where the call in progress is. -/
theorem of_calls (h : b.calls = rs.map .over ++ (stage?.map (.process k)).toList) :
    b.results = rs ∧ b.stage? = stage? := by
  constructor
  · cases stage? with
    | none => simp [results, h]
    | some stage => simp [results, h]
  · have hnone : (rs.map Call.over).findSome? Call.stage? = none := by simp [Call.stage?]
    rw [Bus.stage?, h, List.findSome?_append, hnone]
    cases stage? <;> rfl

theorem calls_of_areCallsOver (h : b.areCallsOver = true) :
    ∃ rs : List CallResult, b.calls = rs.map .over := by
  have hall : ∀ c ∈ b.calls, ∃ r, Call.over r = c := by
    intro c hc
    have hc := List.all_eq_true.mp h c hc
    cases c with
    | «over» r => exact ⟨r, rfl⟩
    | _ => cases hc
  have hrange : b.calls ∈ Set.range (List.map Call.over) := by
    rw [Set.range_list_map]
    exact hall
  exact hrange.imp fun _ => Eq.symm

/-- A step of the call in progress. -/
theorem step?_call (hcalls : b.calls = rs.map .over ++ [.process k stage]) (hk : b.nodes[k]? = some n)
    (draw : Nat → Draw) :
    b.step? draw (.call rs.length) = (stage.step? (draw k) b.hub n).map fun r =>
      { b with hub := r.2.1, nodes := b.nodes.set k r.2.2
               calls := rs.map .over ++ [r.1.elim (.process k) .over] } := by
  have hcall : b.calls[rs.length]? = some (.process k stage) := by simp [hcalls]
  have hset (c : Call) : b.calls.set rs.length c = rs.map .over ++ [c] := by simp [hcalls]
  simp only [step?, hcall, stepCall?, hk, bind, Option.bind]
  cases stage.step? (draw k) b.hub n with
  | none => rfl
  | some r =>
    obtain ⟨stage' | r, h', n'⟩ := r
    · simp [hset]
    · simp [hset]

/-- No other call takes a step. -/
theorem step?_call_of_ne (hcalls : b.calls = rs.map .over ++ (stage?.map (.process k)).toList) {i : Nat}
    (hi : stage? = none ∨ i ≠ rs.length) (draw : Nat → Draw) : b.step? draw (.call i) = none := by
  have hover : ∀ c ∈ b.calls[i]?, ∃ r, c = .over r := by
    intro c hc
    rw [hcalls] at hc
    by_cases hlt : i < rs.length
    · rw [List.getElem?_append_left (by simpa using hlt)] at hc
      obtain ⟨r, -, rfl⟩ := List.mem_map.mp (List.mem_of_getElem? hc)
      exact ⟨r, rfl⟩
    · -- beyond the calls that are over there is at most the one in progress
      have hlast : (rs.map Call.over).length + (stage?.map (Call.process k)).toList.length ≤ i := by
        cases stage? with
        | none => simpa using hlt
        | some stage =>
          have hne := hi.resolve_left (Option.some_ne_none stage)
          simp only [List.length_map, Option.map_some, Option.toList_some, List.length_singleton]
          omega
      rw [List.getElem?_eq_none (by rwa [List.length_append])] at hc
      cases hc
  cases hcall : b.calls[i]? with
  | none => simp only [step?, stepCall?, hcall, bind, Option.bind]
  | some c =>
    obtain ⟨r, rfl⟩ := hover c hcall
    simp only [step?, stepCall?, hcall, bind, Option.bind]

/-- What an action does that drains the store: nothing, or a step of the quota. -/
inductive DrainStep (b : Bus) (q : Quota) (x : BusAction) : Prop where
  | rests (still : ¬b.Advances x) (results : (b.act x).results = b.results) (events : b.events x = [])
    (store : (b.act x).hub.store = b.hub.store) (stage : (b.act x).stage? = b.stage?)
  | steps (t : BusTask) (rs : List CallResult) (results : (b.act x).results = b.results ++ rs)
    (step : q.Step t b.hub.store b.stage? rs (b.events x) (b.act x).hub.store (b.act x).stage?)

/-- The dispatcher is asked for a batch. -/
theorem serves_beginProcess (hb : b.Serves k q) (hover : b.areCallsOver = true) :
    (b.act (.process k)).Serves k q ∧ b.DrainStep q (.process k) := by
  obtain ⟨rs, hrs⟩ := calls_of_areCallsOver hover
  have hcalls : b.calls = rs.map .over ++ ((none : Option ProcessStage).map (.process k)).toList := by
    rw [hrs, Option.map_none, Option.toList_none, List.append_nil]
  have hcalls' : (b.act (.process k)).calls =
      rs.map .over ++ ((some .claiming).map (Call.process k)).toList := by
    rw [act, beginProcess, hrs]
    rfl
  obtain ⟨hresults, hstage⟩ := of_calls hcalls
  obtain ⟨hresults', hstage'⟩ := of_calls hcalls'
  refine ⟨⟨hb.node, hb.hub, ?_, fun stage hs => ?_⟩, .steps (.call 0) [] ?_ ?_⟩
  · rw [hresults', hstage', hcalls']
  · rw [hstage'] at hs
    cases hs
    exact ProcessStage.isKept_claiming q _
  · rw [hresults', hresults, List.append_nil]
  · rw [hstage, hstage']
    exact .asks _

/-- The call in progress takes a step. -/
theorem serves_step? {draw : Nat → Draw} {r : ProcessStage ⊕ CallResult} {h' : Hub} {n' : Node}
    (hb : b.Serves k q) (hstage : b.stage? = some stage) (hk : b.nodes[k]? = some n) (hn : n.DrawsOn q)
    (hstep : stage.step? (draw k) b.hub n = some (r, h', n')) :
    (b.act (.task (.call b.results.length) draw)).Serves k q ∧
      b.DrainStep q (.task (.call b.results.length) draw) := by
  have hcalls : b.calls = b.results.map .over ++ [.process k stage] := by
    have hcalls := hb.calls
    rwa [hstage] at hcalls
  have hact : b.act (.task (.call b.results.length) draw) =
      { b with hub := h', nodes := b.nodes.set k n'
               calls := b.results.map .over ++ [r.elim (.process k) .over] } := by
    rw [act, step?_call hcalls hk, hstep]
    rfl
  have hcalls' : (b.act (.task (.call b.results.length) draw)).calls =
      (b.results ++ r.getRight?.toList).map .over ++ (r.getLeft?.map (Call.process k)).toList := by
    rw [hact]
    cases r <;> simp
  obtain ⟨hresults', hstage'⟩ := of_calls hcalls'
  have hevents : b.events (.task (.call b.results.length) draw) =
      AttemptEvent.ofStep b.hub (.call b.results.length) stage.attempt?
        (r.getLeft?.bind ProcessStage.attempt?) := by
    have hbefore : (BusTask.call b.results.length).attempt? b = stage.attempt? := by
      simp [BusTask.attempt?, hcalls, Call.attempt?]
    have hafter : (BusTask.call b.results.length).attempt? (b.act (.task (.call b.results.length) draw)) =
        r.getLeft?.bind ProcessStage.attempt? := by
      rw [hact]
      cases r <;> simp [BusTask.attempt?, Call.attempt?]
    rw [events, hbefore, hafter]
  obtain ⟨hturn, hh', hn', hkept'⟩ :=
    ProcessStage.drains_step? hb.hub hn (hb.kept stage hstage) hstep (.call b.results.length)
  refine ⟨⟨?_, ?_, ?_, ?_⟩, .steps (.call b.results.length) _ hresults' ?_⟩
  · rw [hact]
    exact ⟨n', getElem?_set_of_some hk n', hn'⟩
  · rw [hact]
    exact hh'
  · rw [hresults', hstage', hcalls']
  · rw [hstage', hact]
    exact hkept'
  · rw [hstage, hevents, hstage', hact]
    exact hturn

/-- Whatever drains the store keeps to the quota. -/
theorem serves_act (hb : b.Serves k q) (hx : x.IsDraining b k) : (b.act x).Serves k q ∧ b.DrainStep q x := by
  cases x with
  | process node =>
    obtain ⟨rfl, hover⟩ := hx
    exact serves_beginProcess hb hover
  | setTime first now =>
    have hx : ({ Hub.startingAt first with now } : Hub).time = b.hub.time := hx
    have hhub : ({ b.hub with start := first, now } : Hub).IsCalm q :=
      ⟨hx.trans hb.hub.time, hb.hub.claims, hb.hub.updates, hb.hub.unfailing, hb.hub.ascending⟩
    exact ⟨⟨hb.node, hhub, hb.calls, hb.kept⟩, .rests id rfl rfl rfl rfl⟩
  | task t draw =>
    cases t with
    | call i =>
      have hrests (hnone : b.step? draw (.call i) = none) :
          (b.act (.task (.call i) draw)).Serves k q ∧ b.DrainStep q (.task (.call i) draw) := by
        have hact : b.act (.task (.call i) draw) = b := by rw [act, hnone, Option.getD_none]
        have hevents : b.events (.task (.call i) draw) = [] := by rw [events, hact, AttemptEvent.ofStep_self]
        rw [hact]
        refine ⟨hb, .rests (fun hadvances => hadvances hnone) ?_ hevents ?_ ?_⟩
        all_goals rw [hact]
      cases hstage : b.stage? with
      | none => exact hrests (step?_call_of_ne hb.calls (.inl hstage) draw)
      | some stage =>
        by_cases hi : i = b.results.length
        · subst hi
          obtain ⟨n, hk, hn⟩ := hb.node
          have hcalls := hb.calls
          rw [hstage] at hcalls
          cases hstep : stage.step? (draw k) b.hub n with
          | none => exact hrests (by rw [step?_call hcalls hk, hstep, Option.map_none])
          | some r => exact serves_step? hb hstage hk hn hstep
        · exact hrests (step?_call_of_ne hb.calls (.inr hi) draw)
    | _ => exact hx.elim
  | _ => exact hx.elim

theorem answers_eq (h : (b.run xs).results = b.results ++ rs) : b.answers xs = rs := by
  rw [answers, h, List.drop_left]

/-- A run that drains the store is a run of the quota. -/
theorem serves_run (hb : b.Serves k q) (hxs : b.IsDrain k xs) :
    (b.run xs).Serves k q ∧ (b.run xs).results = b.results ++ b.answers xs ∧
      q.Run b.hub.store b.stage? (b.answers xs) (b.log xs) (b.run xs).hub.store (b.run xs).stage? := by
  induction xs generalizing b with
  | nil =>
    have hnone : (b.run []).results = b.results ++ [] := (List.append_nil _).symm
    rw [answers_eq hnone]
    exact ⟨hb, hnone, .nil _ _⟩
  | cons x xs ih =>
    obtain ⟨hx, hxs⟩ := hxs
    obtain ⟨hact, hstep⟩ := serves_act hb hx
    obtain ⟨hrun, hresults, hsteps⟩ := ih hact hxs
    cases hstep with
    | rests still hsame hevents hstore hstage =>
      have hall : (b.run (x :: xs)).results = b.results ++ (b.act x).answers xs := hsame ▸ hresults
      rw [answers_eq hall, log, hevents, List.nil_append]
      exact ⟨hrun, hall, hstore ▸ hstage ▸ hsteps⟩
    | steps t rs hmore step =>
      have hall : (b.run (x :: xs)).results = b.results ++ (rs ++ (b.act x).answers xs) := by
        rw [← List.append_assoc, ← hmore]
        exact hresults
      rw [answers_eq hall, log]
      exact ⟨hrun, hall, .cons step hsteps⟩

/-- The handler of the call in progress waits for a time that has not come. -/
def IsHeldUp (b : Bus) : Prop := ∃ a ∈ b.stage?.bind ProcessStage.attempt?, a.IsAsleep b.hub

/-- As long as no handler sleeps, there is something to do. -/
theorem exists_advances (hb : b.Serves k q) :
    (∃ x : BusAction, x.IsDraining b k ∧ b.Advances x) ∨ b.IsHeldUp := by
  have hcalls := hb.calls
  cases hstage : b.stage? with
  | none =>
    refine .inl ⟨.process k, ⟨rfl, ?_⟩, trivial⟩
    rw [areCallsOver, hcalls, hstage]
    simp
  | some stage =>
    obtain ⟨n, hk, -⟩ := hb.node
    rw [hstage] at hcalls
    cases hstep : stage.step? (fun _ => none) b.hub n with
    | some r =>
      refine .inl ⟨.task (.call b.results.length) fun _ _ => none, trivial, ?_⟩
      rw [Advances, step?_call hcalls hk, hstep]
      exact Option.some_ne_none _
    | none =>
      obtain ⟨a, ha, hasleep⟩ := ProcessStage.isAsleep_of_step? hstep
      exact .inr ⟨a, by rw [hstage]; exact ha, hasleep⟩

/-- A call answers that nothing was claimed, or what is done brings the next attempt nearer. -/
theorem DrainStep.measure_le (h : b.DrainStep q x) : ∃ rs, (b.act x).results = b.results ++ rs ∧
    (.count 0 ∈ rs ∨ q.measure (b.act x).hub.store (b.act x).stage? ≤ q.measure b.hub.store b.stage? ∧
      (b.Advances x → q.measure (b.act x).hub.store (b.act x).stage? < q.measure b.hub.store b.stage?)) := by
  cases h with
  | rests still hsame hevents hstore hstage =>
    refine ⟨[], by rw [hsame, List.append_nil], .inr ?_⟩
    rw [hstore, hstage]
    exact ⟨le_rfl, fun hadvances => absurd hadvances still⟩
  | steps t rs hmore step =>
    refine ⟨rs, hmore, ?_⟩
    by_cases hrs : .count 0 ∈ rs
    · exact .inl hrs
    · exact .inr ⟨le_of_lt (step.measure_lt hrs), fun _ => step.measure_lt hrs⟩

/-- The draining can go on to the answer that nothing was claimed, or until a handler sleeps. -/
theorem exists_isDrain (hb : b.Serves k q) :
    ∃ ys, b.IsDrain k ys ∧ (.count 0 ∈ b.answers ys ∨ (b.run ys).IsHeldUp) := by
  induction hm : q.measure b.hub.store b.stage? using WellFoundedLT.induction generalizing b with
  | ind m ih =>
    rcases exists_advances hb with ⟨x, hx, hadvances⟩ | hheld
    · obtain ⟨hact, hstep⟩ := serves_act hb hx
      obtain ⟨rs, hmore, hrs | ⟨-, hless⟩⟩ := hstep.measure_le
      · refine ⟨[x], ⟨hx, trivial⟩, .inl ?_⟩
        have hone : (b.run [x]).results = b.results ++ rs := hmore
        rwa [answers_eq hone]
      · obtain ⟨ys, hys, hend⟩ := ih _ (hm ▸ hless hadvances) hact rfl
        refine ⟨x :: ys, ⟨hx, hys⟩, hend.imp_left fun hrs => ?_⟩
        have hall : (b.run (x :: ys)).results = b.results ++ (rs ++ (b.act x).answers ys) := by
          rw [← List.append_assoc, ← hmore]
          exact (serves_run hact hys).2.1
        rw [answers_eq hall]
        exact List.mem_append_right _ hrs
    · exact ⟨[], trivial, .inr hheld⟩

theorem isDrain_append (b : Bus) (k : Nat) (xs ys : List BusAction) :
    b.IsDrain k (xs ++ ys) ↔ b.IsDrain k xs ∧ (b.run xs).IsDrain k ys := by
  induction xs generalizing b with
  | nil => exact ⟨fun h => ⟨trivial, h⟩, And.right⟩
  | cons x xs ih => rw [List.cons_append, IsDrain, IsDrain, ih, and_assoc]; rfl

/-- What is done again and again without end comes to the answer that nothing was claimed. -/
theorem exists_answer (hb : b.Serves k q) (next : Nat → BusAction)
    (hdrain : ∀ i, b.IsDrain k ((List.range i).map next))
    (hadvances : ∀ i, ∃ j ≥ i, (b.run ((List.range j).map next)).Advances (next j)) :
    ∃ i, .count 0 ∈ b.answers ((List.range i).map next) := by
  by_contra hnever
  rw [not_exists] at hnever
  have hsucc (i : Nat) : (List.range (i + 1)).map next = (List.range i).map next ++ [next i] := by
    rw [List.range_succ, List.map_append, List.map_singleton]
  -- without that answer every step that does something leaves less
  let left (i : Nat) :=
    q.measure (b.run ((List.range i).map next)).hub.store (b.run ((List.range i).map next)).stage?
  have hstep (i : Nat) : left (i + 1) ≤ left i ∧
      ((b.run ((List.range i).map next)).Advances (next i) → left (i + 1) < left i) := by
    obtain ⟨hbefore, hresults, -⟩ := serves_run hb (hdrain i)
    have hx : (next i).IsDraining (b.run ((List.range i).map next)) k := by
      have hdrain := hdrain (i + 1)
      rw [hsucc, isDrain_append] at hdrain
      exact hdrain.2.1
    obtain ⟨rs, hmore, hrs | hless⟩ := (serves_act hbefore hx).2.measure_le
    · have hall : (b.run ((List.range (i + 1)).map next)).results =
          b.results ++ (b.answers ((List.range i).map next) ++ rs) := by
        rw [hsucc, run_concat, hmore, hresults, List.append_assoc]
      have hanswered := hnever (i + 1)
      rw [answers_eq hall] at hanswered
      exact absurd (List.mem_append_right _ hrs) hanswered
    · simp only [left, hsucc, run_concat]
      exact hless
  have hantitone : Antitone left := antitone_nat_of_succ_le fun i => (hstep i).1
  obtain ⟨_, ⟨i, rfl⟩, hleast⟩ := wellFounded_lt.has_min (Set.range left) ⟨_, 0, rfl⟩
  obtain ⟨j, hj, hdone⟩ := hadvances i
  exact hleast _ ⟨j + 1, rfl⟩ (lt_of_lt_of_le ((hstep j).2 hdone) (hantitone hj))

theorem serves_of_areCallsOver (hstore : b.hub.store = (Store.empty.run ops).2)
    (hleft : b.hub.store.failuresLeft = 0) (hclaims : b.hub.breakdowns.claim = 0)
    (hupdates : b.hub.breakdowns.update = 0) (hover : b.areCallsOver = true) (hk : b.nodes[k]? = some n)
    (hroom : 0 < n.config.maxEntriesClaimed) (hquiet : n.registry.Does Effect.IsQuiet) :
    b.Serves k (b.quota n) ∧ b.stage? = none := by
  have hwell : b.hub.store.IsWellFormed := hstore ▸ Store.isWellFormed_run Store.isWellFormed_empty ops
  obtain ⟨rs, hrs⟩ := calls_of_areCallsOver hover
  have hcalls : b.calls = rs.map .over ++ ((none : Option ProcessStage).map (.process k)).toList := by
    rw [hrs, Option.map_none, Option.toList_none, List.append_nil]
  obtain ⟨hresults, hstage⟩ := of_calls hcalls
  refine ⟨⟨⟨n, hk, rfl, rfl, hroom, hquiet⟩, ⟨rfl, hclaims, hupdates, hleft, hwell.ascending⟩, ?_, ?_⟩,
    hstage⟩
  · rw [hresults, hstage, hcalls]
  · rw [hstage]
    exact fun _ h => (by cases h)

/-- How this dispatcher drains the store, alone and with a clock that stands still. -/
structure Drains (b : Bus) (k : Nat) (n : Node) : Prop where
  /-- No more attempts begin in all than the entries that are due at first may have. -/
  attempts : ∀ xs, b.IsDrain k xs →
    (b.log xs).countP AttemptEvent.isBegun ≤ (b.quota n).total ((b.quota n).due b.hub.store)
  /-- No more calls than attempts answer anything but that nothing was claimed. -/
  calls : ∀ xs, b.IsDrain k xs → (b.answers xs).countP (· ≠ .count 0) ≤ (b.log xs).countP AttemptEvent.isBegun
  /-- Whatever was done so far, it can go on to a call that claims nothing, or until a handler sleeps. -/
  reaches : ∀ xs, b.IsDrain k xs → ∃ ys, b.IsDrain k (xs ++ ys) ∧
    (.count 0 ∈ b.answers (xs ++ ys) ∨ (b.run (xs ++ ys)).IsHeldUp)
  /-- However it goes on, it comes to such a call as long as something is done again and again. -/
  ends : ∀ next : Nat → BusAction, (∀ i, b.IsDrain k ((List.range i).map next)) →
    (∀ i, ∃ j ≥ i, (b.run ((List.range j).map next)).Advances (next j)) →
    ∃ i, .count 0 ∈ b.answers ((List.range i).map next)
  /-- From then on nothing is due. -/
  drained : ∀ xs, b.IsDrain k xs → .count 0 ∈ b.answers xs →
    ∀ e ∈ (b.run xs).hub.store.live, ¬e.IsDue n.claims.ownerFilter (b.run xs).hub.time
  /-- As long as all attempts succeed, the due entries are dispatched once each and in order. -/
  ordered : ∀ xs, b.IsDrain k xs → Quota.AllSucceed (b.answers xs) (b.log xs) →
    (Quota.begun (b.log xs)).Pairwise (· < ·) ∧
      Quota.begun (b.log xs) <+: ((b.quota n).due b.hub.store).map Entry.id
  /-- And then they are all processed. -/
  processed : ∀ xs, b.IsDrain k xs → Quota.AllSucceed (b.answers xs) (b.log xs) → .count 0 ∈ b.answers xs →
    Quota.begun (b.log xs) = ((b.quota n).due b.hub.store).map Entry.id ∧
      ∀ e ∈ (b.quota n).due b.hub.store, ∃ e', (b.run xs).hub.store.liveEntry? e.id = some e' ∧
        e'.state = .processed

/-- Whatever a store holds and however handlers end, a dispatcher that is asked for one batch after the other
comes to one in which it claims nothing, after no more attempts than the due entries have failures to
spare. -/
theorem drains_from (b : Bus) (ops : List (StoreOp × Timestamp)) (k : Nat) (n : Node)
    (hstore : b.hub.store = (Store.empty.run ops).2) (hleft : b.hub.store.failuresLeft = 0)
    (hclaims : b.hub.breakdowns.claim = 0) (hupdates : b.hub.breakdowns.update = 0)
    (hover : b.areCallsOver = true) (hk : b.nodes[k]? = some n) (hroom : 0 < n.config.maxEntriesClaimed)
    (hquiet : n.registry.Does Effect.IsQuiet) : b.Drains k n := by
  obtain ⟨hb, hstage⟩ := serves_of_areCallsOver hstore hleft hclaims hupdates hover hk hroom hquiet
  have hrun {xs : List BusAction} (hxs : b.IsDrain k xs) :
      (b.quota n).Run b.hub.store none (b.answers xs) (b.log xs) (b.run xs).hub.store (b.run xs).stage? :=
    hstage ▸ (serves_run hb hxs).2.2
  have hfirst : (b.quota n).left b.hub.store none = (b.quota n).total ((b.quota n).due b.hub.store) := rfl
  have hascending : (((b.quota n).due b.hub.store).map Entry.id).Pairwise (· < ·) :=
    hb.hub.ascending.sublist (List.filter_sublist.map Entry.id)
  have hids {xs : List BusAction} (hxs : b.IsDrain k xs) (hall : Quota.AllSucceed (b.answers xs) (b.log xs)) :
      Quota.begun (b.log xs) ++ (((b.run xs).stage?.elim [] ProcessStage.waiting).map Entry.id ++
        ((b.quota n).due (b.run xs).hub.store).map Entry.id) =
      ((b.quota n).due b.hub.store).map Entry.id :=
    (hrun hxs).ids_eq hall
  refine ⟨fun xs hxs => ?_, fun xs hxs => ?_, fun xs hxs => ?_, exists_answer hb, fun xs hxs hanswer => ?_,
    fun xs hxs hall => ?_, fun xs hxs hall hanswer => ?_⟩
  · exact Nat.le_trans (Nat.le_add_right _ _) (hfirst ▸ (hrun hxs).left_le)
  · exact Nat.le_trans (Nat.le_add_right _ _) (hrun hxs).answers_le
  · obtain ⟨hserves, hresults, -⟩ := serves_run hb hxs
    obtain ⟨ys, hys, hend⟩ := exists_isDrain hserves
    have hboth : (b.run (xs ++ ys)).results = b.results ++ (b.answers xs ++ (b.run xs).answers ys) := by
      rw [run_append, (serves_run hserves hys).2.1, hresults, List.append_assoc]
    refine ⟨ys, (isDrain_append b k xs ys).mpr ⟨hxs, hys⟩, ?_⟩
    rw [answers_eq hboth, run_append]
    exact hend.imp_left (List.mem_append_right _)
  · have hspent := (hrun hxs).isSpent (.inr hanswer)
    rw [(serves_run hb hxs).1.hub.time]
    exact fun e he hdue => List.filter_eq_nil_iff.mp hspent.due e he (decide_eq_true hdue)
  · have hprefix : Quota.begun (b.log xs) <+: ((b.quota n).due b.hub.store).map Entry.id := ⟨_, hids hxs hall⟩
    exact ⟨hascending.sublist hprefix.sublist, hprefix⟩
  · have hspent := (hrun hxs).isSpent (.inr hanswer)
    have hbegun := hids hxs hall
    rw [hspent.due, hspent.waiting, List.map_nil, List.append_nil, List.append_nil] at hbegun
    refine ⟨hbegun, fun e he => ?_⟩
    have hdispatched := (hrun hxs).isDispatched hall (.inr (hbegun ▸ List.mem_map_of_mem he))
    obtain ⟨e', he', hid, hstate⟩ := hdispatched.stored hspent.attempt
    have hnodup := EntryId.nodup_of_pairwise_lt (serves_run hb hxs).1.hub.ascending
    exact ⟨e', hid ▸ find?_of_nodup_map hnodup he', hstate⟩

/-- Two failures end an entry, and after the first one it is due again at once. -/
def promptNode : Node :=
  let policy : RetryPolicy := { RetryPolicy.standard with
    maxFailureRetries := 2, baseBackoff := .zero, strategy := .fixed }
  .unstarted ⟨"a"⟩ { DispatchConfig.standard with maxEntriesClaimed := 1, retryPolicy := policy }
    (.ofList [jobHandler]) .shared false

/-- Jobs that are true or false. -/
def postJobs (jobs : List Bool) : List (StoreOp × Timestamp) :=
  jobs.map fun job =>
    let body : List UInt8 := if job then [116, 114, 117, 101] else [102, 97, 108, 115, 101]
    (.append ⟨⟨"job", body⟩, ⟨"a"⟩, .none⟩, .epoch)

def withJobs (jobs : List Bool) : Bus :=
  { Bus.startingAt .epoch with
    hub := { Hub.startingAt .epoch with store := (Store.empty.run (postJobs jobs)).2 }
    nodes := [promptNode] }

/-- So many calls, one after the other. -/
def callsInTurn (count : Nat) : List BusAction :=
  (List.range count).flatMap fun i => .process 0 :: List.replicate 7 (.task (.call i) fun _ => some)

/-- A job that its handler does not take is dispatched twice, both times before the job after it. Jobs that it
takes are dispatched once each. -/
theorem drains_from_withJobs :
    (withJobs [false, true]).hub.store.failuresLeft = 0 ∧ 0 < promptNode.config.maxEntriesClaimed ∧
    promptNode.registry.Does Effect.IsQuiet ∧
    ((withJobs [false, true]).answers (callsInTurn 4) = [.count 1, .count 1, .count 1, .count 0] ∧
      Quota.begun ((withJobs [false, true]).log (callsInTurn 4)) = [⟨1⟩, ⟨1⟩, ⟨2⟩] ∧
      ((withJobs [false, true]).log (callsInTurn 4)).countP AttemptEvent.isBegun ≤ 4 ∧
      ∀ e ∈ ((withJobs [false, true]).run (callsInTurn 4)).hub.store.live,
        ¬e.IsDue none ((withJobs [false, true]).run (callsInTurn 4)).hub.time) ∧
    ((withJobs [true, true]).answers (callsInTurn 3) = [.count 1, .count 1, .count 0] ∧
      Quota.begun ((withJobs [true, true]).log (callsInTurn 3)) = [⟨1⟩, ⟨2⟩] ∧
      ∀ e ∈ ((withJobs [true, true]).quota promptNode).due (withJobs [true, true]).hub.store, ∃ e',
        ((withJobs [true, true]).run (callsInTurn 3)).hub.store.liveEntry? e.id = some e' ∧
          e'.state = .processed) := by
  have hquiet : promptNode.registry.Does Effect.IsQuiet := does_jobHandler _
  have hdrains (jobs : List Bool) (hleft : (withJobs jobs).hub.store.failuresLeft = 0) :
      (withJobs jobs).Drains 0 promptNode :=
    drains_from (withJobs jobs) (postJobs jobs) 0 promptNode rfl hleft rfl rfl rfl rfl (by decide) hquiet
  refine ⟨by decide, by decide, hquiet, ?_, ?_⟩
  · have hdrain := hdrains [false, true] (by decide)
    have hcalls : (withJobs [false, true]).IsDrain 0 (callsInTurn 4) := by decide +kernel
    have hanswer : .count 0 ∈ (withJobs [false, true]).answers (callsInTurn 4) := by decide +kernel
    exact ⟨by decide +kernel, by decide +kernel, hdrain.attempts _ hcalls, hdrain.drained _ hcalls hanswer⟩
  · have hdrain := hdrains [true, true] (by decide)
    have hcalls : (withJobs [true, true]).IsDrain 0 (callsInTurn 3) := by decide +kernel
    have hall : Quota.AllSucceed ((withJobs [true, true]).answers (callsInTurn 3))
        ((withJobs [true, true]).log (callsInTurn 3)) := ⟨by decide +kernel, by decide +kernel⟩
    obtain ⟨hbegun, hprocessed⟩ := hdrain.processed _ hcalls hall (by decide +kernel)
    exact ⟨by decide +kernel, hbegun, hprocessed⟩

end Bus

end DurableQueue
