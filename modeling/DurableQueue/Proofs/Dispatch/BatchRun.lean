import DurableQueue.Proofs.Dispatch.BatchOrder
import DurableQueue.Trial.Handlers

/-!
However a batch is processed, it resolves the same.

One call may process the batch from the first claim to the last, several calls may share it, or workers may
take it from the queue, and their steps may come in any order. As long as no handler sleeps there is a step to
take (`Bus.exists_isReady`), each leaves less to do, and the end is always the same store and the same
counters.
-/

namespace DurableQueue

/-- Nothing is left to be done of the batch that the dispatcher of this number processes. -/
def Bus.IsThrough (b : Bus) (k : Nat) : Prop := ∃ n, b.nodes[k]? = some n ∧ b.work n = []

/-- Some handler that the dispatcher of this number has called waits for a time that has not come. -/
def Bus.IsWaiting (b : Bus) (k : Nat) : Prop :=
  ∃ n, b.nodes[k]? = some n ∧ ∃ a, .begun a ∈ b.work n ∧ a.IsAsleep b.hub

namespace Bus

variable {b : Bus} {k : Nat} {n : Node} {g : Setting} {s : Store} {c : DispatchStats} {es done : List Entry}
  {xs : List BusAction} {p : Spread}

/-- A worker that is not stopped. -/
theorem isReady_worker {i : Nat} {w : Worker} (hb : b.IsAtWork k n) (hi : n.workers[i]? = some w)
    (hstopped : w ≠ .stopped) (hidle : w = .idle → n.isCancelled = false ∧ n.queue ≠ []) :
    b.IsReady n (.task (.worker k i) fun _ _ => none) ∨ ∃ a, w = .busy a ∧ a.IsAsleep b.hub := by
  have hstep (hr : Worker.step? (fun _ => none) b.hub n i ≠ none) :
      b.step? (fun _ _ => none) (.worker k i) ≠ none := by
    obtain ⟨r, hr⟩ := Option.ne_none_iff_exists'.mp hr
    simp only [step?, onNode?, hb.node, hr, bind, Option.bind]
    exact Option.some_ne_none _
  cases w with
  | idle =>
    obtain ⟨hopen, hqueue⟩ := hidle rfl
    obtain ⟨e, rest, hcons⟩ := List.exists_cons_of_ne_nil hqueue
    refine .inl ⟨hstep ?_, ?_⟩
    · simp only [Worker.step?, hi, hopen, hcons]
      exact Option.some_ne_none _
    · simp only [Worker.IsReady, hi]
      exact ⟨hopen, hqueue⟩
  | busy a =>
    cases hattempt : a.step? (fun _ => none) b.hub n with
    | none => exact .inr ⟨a, rfl, Attempt.isAsleep_of_step? hattempt⟩
    | some r =>
      refine .inl ⟨hstep ?_, ?_⟩
      · simp only [Worker.step?, hi, hattempt, Option.map_some]
        exact Option.some_ne_none _
      · simp only [Worker.IsReady, hi]
  | stopped => exact absurd rfl hstopped

/-- A call in which something is left to be done. -/
theorem isReady_call {i : Nat} {call : Call} (hb : b.IsAtWork k n) (hi : b.calls[i]? = some call)
    (hcall : call.work ≠ []) :
    b.IsReady n (.task (.call i) fun _ _ => none) ∨ ∃ a, .begun a ∈ call.work ∧ a.IsAsleep b.hub := by
  have hready : b.IsCallReady i := ⟨call, hi, hcall⟩
  have hkind := hb.calls call (List.mem_of_getElem? hi)
  cases call with
  | process node stage =>
    obtain ⟨rfl, hstage⟩ := hkind
    have hstep (r : (ProcessStage ⊕ CallResult) × Hub × Node)
        (hr : stage.step? (fun _ => none) b.hub n = some r) : b.step? (fun _ _ => none) (.call i) ≠ none := by
      simp only [step?, stepCall?, hi, hb.node, hr, bind, Option.bind]
      exact Option.some_ne_none _
    cases stage with
    | claiming => exact hstage.elim
    | between count rest =>
      cases rest with
      | nil => exact absurd rfl hcall
      | cons e rest => exact .inl ⟨hstep _ rfl, hready⟩
    | attempting count a rest =>
      cases hattempt : a.step? (fun _ => none) b.hub n with
      | none => exact .inr ⟨a, List.mem_cons_self, Attempt.isAsleep_of_step? hattempt⟩
      | some r =>
        exact .inl ⟨hstep _ (by simp only [ProcessStage.step?, hattempt, Option.map_some]; rfl), hready⟩
  | shutdown node stage => exact hkind.elim
  | «over» r => exact absurd rfl hcall

/-- As long as something is left to be done and no handler sleeps, someone can go on. -/
theorem exists_isReady (hb : b.IsAtWork k n) (hstaffed : n.IsStaffed) (hleft : b.work n ≠ []) :
    (∃ x, x.IsWork k b.hub.time ∧ b.IsReady n x) ∨ ∃ a, .begun a ∈ b.work n ∧ a.IsAsleep b.hub := by
  by_cases hcalls : ∃ call ∈ b.calls, call.work ≠ []
  · obtain ⟨call, hmem, hcall⟩ := hcalls
    obtain ⟨i, hi⟩ := List.mem_iff_getElem?.mp hmem
    refine (isReady_call hb hi hcall).imp
      (fun hready => ⟨.task (.call i) fun _ _ => none, trivial, hready⟩) ?_
    rintro ⟨a, ha, hsleep⟩
    exact ⟨a, List.mem_append_right _ (List.mem_flatMap.mpr ⟨call, hmem, ha⟩), hsleep⟩
  -- Otherwise it is in the queue or with the workers, and one of them is not stopped.
  have hworker : ∃ w ∈ n.workers, w ≠ .stopped ∧ (w = .idle → n.isCancelled = false ∧ n.queue ≠ []) := by
    by_cases hbusy : ∃ w ∈ n.workers, w.work ≠ []
    · obtain ⟨w, hw, hwork⟩ := hbusy
      refine ⟨w, hw, ?_, ?_⟩
      · rintro rfl
        exact hwork rfl
      · rintro rfl
        exact absurd rfl hwork
    · have hwaiting : n.queue ≠ [] := by
        intro hempty
        refine hleft ?_
        rw [work, Node.work, hempty, List.flatMap_eq_nil_iff.mpr, List.flatMap_eq_nil_iff.mpr]
        · rfl
        · exact fun call hcall => Classical.not_not.mp fun h => hcalls ⟨call, hcall, h⟩
        · exact fun w hw => Classical.not_not.mp fun h => hbusy ⟨w, hw, h⟩
      obtain ⟨hopen, w, hw, hstopped⟩ := hstaffed.resolve_left hwaiting
      exact ⟨w, hw, hstopped, fun _ => ⟨hopen, hwaiting⟩⟩
  obtain ⟨w, hw, hstopped, hidle⟩ := hworker
  obtain ⟨i, hi⟩ := List.mem_iff_getElem?.mp hw
  refine (isReady_worker hb hi hstopped hidle).imp
    (fun hready => ⟨.task (.worker k i) fun _ _ => none, rfl, hready⟩) ?_
  rintro ⟨a, rfl, hsleep⟩
  have ha : Work.begun a ∈ n.work :=
    List.mem_append_right _ (List.mem_flatMap.mpr ⟨_, hw, List.mem_singleton_self _⟩)
  exact ⟨a, List.mem_append_left _ ha, hsleep⟩

/-- A run of work on a batch keeps to it. -/
theorem inWork_acts (hbatch : IsBatch g s es) (hb : b.IsAtWork k n)
    (hwork : InWork g s c es done b.hub n (b.work n)) (hxs : ∀ x ∈ xs, x.IsWork k g.storeTime) :
    ∃ n' done', (xs.foldl act b).IsAtWork k n' ∧ (n.IsStaffed → n'.IsStaffed) ∧
      InWork g s c es done' (xs.foldl act b).hub n' ((xs.foldl act b).work n') := by
  induction xs generalizing b n done with
  | nil => exact ⟨n, done, hb, fun h => h, hwork⟩
  | cons x xs ih =>
    obtain ⟨hx, hxs⟩ := List.forall_mem_cons.mp hxs
    rw [← hwork.storeTime] at hx
    obtain ⟨draw, n₁, hb₁, hstep⟩ := worksUpTo_act hb hx
    obtain ⟨⟨done₁, hwork₁⟩, hstaffed₁, -⟩ := hwork.worksUpTo hbatch hstep
    obtain ⟨n', done', hb', hstaffed', hwork'⟩ := ih hb₁ hwork₁ hxs
    exact ⟨n', done', hb', hstaffed' ∘ hstaffed₁, hwork'⟩

/-- The work on a batch can go on until it is through, or until a handler sleeps. -/
theorem exists_acts (hbatch : IsBatch g s es) (hb : b.IsAtWork k n) (hstaffed : n.IsStaffed)
    (hwork : InWork g s c es done b.hub n (b.work n)) :
    ∃ xs : List BusAction, (∀ x ∈ xs, x.IsWork k g.storeTime) ∧
      ((xs.foldl act b).IsThrough k ∨ (xs.foldl act b).IsWaiting k) := by
  induction hleft : Work.total g (b.work n) using Nat.strongRecOn generalizing b n done with
  | ind left ih =>
    by_cases hnil : b.work n = []
    · exact ⟨[], List.forall_mem_nil _, .inl ⟨n, hb.node, hnil⟩⟩
    rcases exists_isReady hb hstaffed hnil with ⟨x, hx, hready⟩ | hasleep
    · obtain ⟨draw, n₁, hb₁, hstep⟩ := worksUpTo_act hb hx
      obtain ⟨⟨done₁, hwork₁⟩, hstaffed₁, hless⟩ := hwork.worksUpTo hbatch hstep
      obtain ⟨xs, hxs, hend⟩ := ih _ (hleft ▸ hless hready) hb₁ (hstaffed₁ hstaffed) hwork₁ rfl
      rw [hwork.storeTime] at hx
      exact ⟨x :: xs, List.forall_mem_cons.mpr ⟨hx, hxs⟩, hend⟩
    · exact ⟨[], List.forall_mem_nil _, .inr ⟨n, hb.node, hasleep⟩⟩

/-- What decides what becomes of the claims of this dispatcher. -/
def setting (b : Bus) (n : Node) : Setting :=
  ⟨n.registry, n.config.retryPolicy, n.time b.hub, b.hub.time⟩

/-- A batch that has just been given. -/
theorem inWork_spread (b : Bus) (k : Nat) (hbreak : b.hub.breakdowns.update = 0) (hlocal : n.registry.IsLocal)
    (hp : p.claims.Perm es) :
    InWork (b.setting n) b.hub.store n.stats es [] (b.spread k p).hub
      { n with queue := p.queue, workers := List.replicate p.workers .idle }
      ((b.spread k p).work { n with queue := p.queue, workers := List.replicate p.workers .idle }) := by
  rw [work_spread]
  refine ⟨?_, rfl, rfl, rfl, hbreak, hlocal, fun _ _ => rfl, fun a ha => ?_, ?_, ?_⟩
  · rw [List.nil_append, List.map_map]
    exact (List.map_id p.claims).symm ▸ hp
  · obtain ⟨e, -, heq⟩ := List.mem_map.mp ha
    cases heq
  · have hnone : (p.claims.map Work.waiting).filterMap Work.stored? = [] := by
      rw [List.filterMap_map]
      exact List.filterMap_eq_nil_iff.mpr fun _ _ => rfl
    rw [hnone, List.append_nil, Store.resolving_nil]
    rfl
  · have hnone : (p.claims.map Work.waiting).countP Work.isBegun = 0 := by
      rw [List.countP_map]
      exact List.countP_eq_zero.mpr fun _ _ => Bool.false_ne_true
    rw [hnone]
    rfl

/-- However these claims are given to the dispatcher, they end in this store and with these counters. -/
structure ResolvesTo (b : Bus) (k : Nat) (n : Node) (es : List Entry) (s : Store) (c : DispatchStats) :
    Prop where
  same : ∀ (p : Spread) (xs : List BusAction), p.claims.Perm es → (∀ x ∈ xs, x.IsWork k b.hub.time) →
    (xs.foldl act (b.spread k p)).IsThrough k →
    (xs.foldl act (b.spread k p)).hub.store = s ∧
      ((xs.foldl act (b.spread k p)).nodes[k]?).map Node.stats = some c
  /-- Whatever was done so far, the end can be reached if no handler sleeps. -/
  ends : ∀ (p : Spread) (xs : List BusAction), p.claims.Perm es → (∀ x ∈ xs, x.IsWork k b.hub.time) →
    p.queue = [] ∨ n.isCancelled = false ∧ 0 < p.workers →
    ∃ ys : List BusAction, (∀ y ∈ ys, y.IsWork k b.hub.time) ∧
      (((xs ++ ys).foldl act (b.spread k p)).IsThrough k ∨ ((xs ++ ys).foldl act (b.spread k p)).IsWaiting k)

/-- A claimed batch resolves the same in any order, one after the other or spread over workers. -/
theorem resolves_in_any_order (b : Bus) (ops : List (StoreOp × Timestamp)) (k : Nat) (n : Node)
    (es : List Entry)
    (hstore : b.hub.store = (Store.empty.run ops).2) (hleft : b.hub.store.failuresLeft = 0)
    (hbreak : b.hub.breakdowns.update = 0) (hk : b.nodes[k]? = some n)
    (hjitter : n.config.retryPolicy.IsJitterFree) (hlocal : n.registry.IsLocal)
    (hclaims : ∀ e ∈ es, e ∈ Scene.claimsIn b.hub.store) (hdistinct : es.Nodup) :
    ∃ s c, b.ResolvesTo k n es s c := by
  have hbatch : IsBatch (b.setting n) b.hub.store es :=
    ⟨hstore ▸ Store.isWellFormed_run Store.isWellFormed_empty ops, hleft, hclaims, hdistinct, hjitter⟩
  refine ⟨b.hub.store.resolving (b.setting n) es, n.stats.bookAll (b.setting n) es,
    fun p xs hp hxs hthrough => ?_, fun p xs hp hxs hstaffed => ?_⟩
  · obtain ⟨n', done', hb', -, hwork'⟩ :=
      inWork_acts hbatch (isAtWork_spread hk p) (inWork_spread b k hbreak hlocal hp) hxs
    obtain ⟨m, hm, hnil⟩ := hthrough
    obtain rfl : n' = m := Option.some.inj (hb'.node.symm.trans hm)
    rw [hnil] at hwork'
    obtain ⟨hend, hstats⟩ := hwork'.finished
    exact ⟨hend, by rw [hm, Option.map_some, hstats]⟩
  · obtain ⟨n', done', hb', hstaffed', hwork'⟩ :=
      inWork_acts hbatch (isAtWork_spread hk p) (inWork_spread b k hbreak hlocal hp) hxs
    have hworkers : 0 < p.workers → ∃ w ∈ List.replicate p.workers Worker.idle, w ≠ .stopped := fun hpos =>
      ⟨.idle, List.mem_replicate.mpr ⟨Nat.ne_of_gt hpos, rfl⟩, nofun⟩
    obtain ⟨ys, hys, hend⟩ := exists_acts hbatch hb'
      (hstaffed' (hstaffed.imp_right (And.imp_right hworkers))) hwork'
    refine ⟨ys, hys, ?_⟩
    rwa [List.foldl_append]

/-- Three marked events, and all of them claimed at once. -/
def drawnOps : List (StoreOp × Timestamp) :=
  [(.append ⟨Trial.MarkedEvent.payload ⟨"first", ""⟩, ⟨"a"⟩, .none⟩, .epoch),
   (.append ⟨Trial.MarkedEvent.payload ⟨"second", ""⟩, ⟨"a"⟩, .none⟩, .epoch),
   (.append ⟨⟨"unknown", []⟩, ⟨"a"⟩, .none⟩, .epoch),
   (.claim 3 ⟨"a"⟩ none, .epoch)]

/-- Its handler fails once with every entry. -/
def drawnNode : Node :=
  .unstarted ⟨"a"⟩
    { DispatchConfig.standard with retryPolicy := { RetryPolicy.standard with strategy := .fixed } }
    (.ofList [Trial.scripted 1]) .shared false

def drawn : Bus :=
  { Bus.startingAt .epoch with
    hub := { Hub.startingAt .epoch with store := (Store.empty.run drawnOps).2 }, nodes := [drawnNode] }

theorem isLocal_scripted (failures : UInt32) : (Trial.scripted failures).IsLocal where
  own past event context := by
    have hcount : (past.filter fun d => d.entryId = context.entryId).countP
        (fun d => d.entryId == context.entryId) =
        past.countP fun d => d.entryId == context.entryId := by
      rw [List.countP_filter]
      exact List.countP_congr fun d _ => by simp
    simp only [Trial.scripted, hcount]
  effects past event context effect heffect := by
    obtain rfl := List.mem_singleton.mp heffect
    exact rfl

theorem resolves_in_any_order_drawn :
    (Scene.claimsIn drawn.hub.store).length = 3 ∧
      ∃ s c, drawn.ResolvesTo 0 drawnNode (Scene.claimsIn drawn.hub.store) s c := by
  have hwell : drawn.hub.store.IsWellFormed := Store.isWellFormed_run Store.isWellFormed_empty drawnOps
  exact ⟨rfl, resolves_in_any_order drawn drawnOps 0 drawnNode _ rfl rfl rfl rfl
    (RetryPolicy.isJitterFree_of_fixed rfl) (List.forall_mem_singleton.mpr (isLocal_scripted 1))
      (fun _ he => he) (hwell.nodup_live.filter _)⟩

end Bus

end DurableQueue
