import DurableQueue.Proofs.Dispatch.BusTurn

/-!
Turns of everything that happens in normal operation.

Adding, starting and letting go of dispatchers, appending entries, setting clocks and what other clients
of the store do brings no news of attempts; a step of a task does. `Bus.turns_act` covers all of it.
-/

namespace DurableQueue

/-- An element that has nothing to say does not matter. -/
theorem bind_getElem?_concat {α β : Type} {f : α → Option β} {x : α} (hx : f x = none) (l : List α)
    (j : Nat) : (l ++ [x])[j]?.bind f = l[j]?.bind f := by
  rw [List.getElem?_append]
  split
  · rfl
  · rename_i hle
    rw [List.getElem?_eq_none (Nat.not_lt.mp hle)]
    cases j - l.length with
    | zero => exact hx
    | succ m => rfl

namespace Node

variable {n : Node} {h : Hub} {aborts : Prop}

theorem givesUp_cancel (n : Node) : n.GivesUp aborts n.cancel :=
  KeepsTasks.givesUp ⟨rfl, rfl, rfl⟩ rfl rfl

/-- A dispatcher starts without claims of its own, and with new workers. -/
theorem givesUp_start (hn : n.IsNormal h) :
    n.GivesUp aborts (n.start h).2.2 ∧ (n.start h).2.1.store = h.store ∧
      (n.start h).2.1.breakdowns = h.breakdowns := by
  unfold start
  split
  · exact ⟨.refl n, rfl, rfl⟩
  · rename_i hstarted
    have hnone : n.workers = [] :=
      List.length_eq_zero_iff.mp (hn.unstarted (Bool.not_eq_true _ ▸ hstarted))
    split
    · refine ⟨⟨List.Subperm.refl _, fun _ => .inl rfl, fun hn => ?_⟩, rfl, rfl⟩
      exact ⟨hn.registry, nofun, hn.unbroken⟩
    · split
      · exact ⟨.refl n, rfl, rfl⟩
      · split
        · exact ⟨.refl n, rfl, rfl⟩
        · refine ⟨⟨?_, fun i => .inl ?_, fun hn => ⟨hn.registry, nofun, hn.unbroken⟩⟩, rfl, rfl⟩
          · refine List.Sublist.subperm ?_
            rw [Node.waiting, Node.waiting]
            exact (List.append_nil _).symm ▸ List.sublist_append_left _ _
          · simp only [attempt?, hnone, Reaper.sleep, count, List.getElem?_replicate]
            split <;> rfl

theorem goesOn_post (hs : h.store.IsWellFormed) (n : Node) (type : EventType) (event : Datum)
    (keys : SearchKeys) :
    h.store.GoesOn (n.post h type event keys).2.store ∧
      (n.post h type event keys).2.breakdowns = h.breakdowns := by
  unfold post
  split
  · exact ⟨.refl _, rfl⟩
  · rename_i payload _
    have hstore := h.store_operate (.append ⟨payload, n.id, keys⟩)
    have hbreak := h.breakdowns_operate (.append ⟨payload, n.id, keys⟩)
    have hnormal : (StoreOp.append ⟨payload, n.id, keys⟩).IsNormal := trivial
    have hgoes := Store.goesOn_apply hs hnormal h.time
    rw [← hstore] at hgoes
    simp only [Hub.operate] at hgoes hbreak
    rcases happend : h.append ⟨payload, n.id, keys⟩ with ⟨_ | e, h'⟩
    · rw [happend] at hgoes hbreak
      exact ⟨hgoes, hbreak⟩
    · rw [happend] at hgoes hbreak
      exact ⟨hgoes, hbreak⟩

end Node

namespace Bus

variable {b : Bus} {limit : UInt32} {aborts : Prop}

/-- A hub that goes on, with the dispatchers and calls as they are. -/
theorem rests_of_hub (hb : b.IsNormal) {h' : Hub} (hstore : b.hub.store.GoesOn h'.store)
    (hbreak : h'.breakdowns = b.hub.breakdowns) : b.Rests aborts { b with hub := h' } where
  waiting := List.Subperm.refl _
  attempts _ := .inl rfl
  goesOn := hstore
  normal := ⟨hb.nodes_of_eq (congrArg _ hbreak), (congrArg _ hbreak).trans hb.unbroken⟩

/-- A dispatcher that does something at once, if it is there. -/
theorem rests_getD_onNode? (hb : b.IsNormal) {i : Nat} {f : Hub → Node → Hub × Node}
    (hf : ∀ n : Node, n.IsNormal b.hub → n.GivesUp aborts (f b.hub n).2 ∧
      b.hub.store.GoesOn (f b.hub n).1.store ∧ (f b.hub n).1.breakdowns = b.hub.breakdowns) :
    b.Rests aborts ((b.onNode? i fun h n => some (f h n)).getD b) := by
  cases hi : b.nodes[i]? with
  | none =>
    simp only [onNode?, hi]
    exact .refl hb
  | some n =>
    simp only [onNode?, hi]
    obtain ⟨hgives, hstore, hbreak⟩ := hf n (hb.node hi)
    exact rests_of_node hb hi hgives hstore (congrArg _ hbreak)

theorem rests_modify (hb : b.IsNormal) (i : Nat) {f : Node → Node} (hf : ∀ n : Node, n.GivesUp aborts (f n)) :
    b.Rests aborts { b with nodes := b.nodes.modify i f } := by
  rw [List.modify_eq_set_getElem?]
  cases hi : b.nodes[i]? with
  | none => exact .refl hb
  | some n => exact rests_of_node hb hi (hf n) (.refl _) rfl

theorem rests_drop (hb : b.IsNormal) (id : NodeId) : b.Rests aborts (b.drop id) := by
  unfold drop
  split
  · rename_i i _
    have hrests : b.Rests aborts { b with nodes := b.nodes.modify i Node.cancel } :=
      rests_modify hb i Node.givesUp_cancel
    exact ⟨hrests.waiting, hrests.attempts, hrests.goesOn, hrests.normal.nodes, hb.unbroken⟩
  · exact .refl hb

theorem rests_add (hb : b.IsNormal) {config : DispatchConfig} {registry : Registry}
    (hregistry : registry.Does Effect.IsNormal) (id : NodeId) (clock : NodeClock) (isAttached : Bool) :
    b.Rests aborts (b.add (.unstarted id config registry clock isAttached)) := by
  have hdrop : b.Rests aborts (b.drop id) := rests_drop hb id
  refine hdrop.trans ⟨?_, fun t => ?_, .refl _, ?_⟩
  · simp only [add, waiting, Node.unstarted, List.flatMap_append, List.flatMap_cons, List.flatMap_nil,
      Node.waiting, List.append_nil]
    exact List.Subperm.refl _
  · cases t with
    | worker k j => exact .inl (bind_getElem?_concat (f := fun n : Node => n.attempt? j) rfl _ k)
    | _ => exact .inl rfl
  · refine ⟨List.forall_mem_append.mpr ⟨hdrop.normal.nodes, ?_⟩, hdrop.normal.unbroken⟩
    exact List.forall_mem_singleton.mpr ⟨hregistry, fun _ => rfl, hdrop.normal.unbroken⟩

/-- A new call without claims of its own. -/
theorem rests_concat_call (hb : b.IsNormal) {c : Call} (hwaiting : c.waiting = [])
    (hattempt : c.attempt? = none) : b.Rests aborts { b with calls := b.calls ++ [c] } where
  waiting := by
    simp only [waiting, List.flatMap_append, List.flatMap_cons, List.flatMap_nil, hwaiting,
      List.append_nil]
    exact List.Subperm.refl _
  attempts t := by
    cases t with
    | call j => exact .inl (bind_getElem?_concat hattempt _ j)
    | _ => exact .inl rfl
  goesOn := .refl _
  normal := ⟨hb.nodes, hb.unbroken⟩

theorem rests_beginShutdown (hb : b.IsNormal) (i : Nat) : b.Rests aborts (b.beginShutdown i) := by
  unfold beginShutdown
  split
  · rename_i n hi
    have hcancel : b.Rests aborts { b with nodes := b.nodes.set i n.cancel } :=
      rests_of_node hb hi n.givesUp_cancel (.refl _) rfl
    have hrests := hcancel.trans
      (rests_concat_call (c := .shutdown i (ShutdownStage.begin_ b.hub n).1) hcancel.normal rfl rfl)
    exact ⟨hrests.waiting, hrests.attempts, hrests.goesOn, hrests.normal.nodes, hb.unbroken⟩
  · exact .refl hb

/-- Whatever happens in normal operation is a turn of some task. -/
theorem turns_act (hs : b.hub.store.IsWellFormed) (hb : b.IsNormal)
    (ha : ∀ (t : BusTask) (a : Attempt), t.attempt? b = some a → a.IsNormal) {x : BusAction}
    (hx : x.IsNormal limit) (hback : b.takesBack x = false) :
    ∃ t, (t.CutsOff b (b.act x) → b.CutsOff x) ∧ b.Turns t (b.events x) (b.act x) := by
  -- for other actions than the steps of tasks any task without an attempt will do
  have hrest (hrests : b.Rests ((BusTask.reaper 0).aborts b = true) (b.act x))
      (hevents : b.events x = []) :
      ∃ t, (t.CutsOff b (b.act x) → b.CutsOff x) ∧ b.Turns t (b.events x) (b.act x) := by
    rw [hevents]
    refine ⟨.reaper 0, fun hcuts => ?_, hrests.turns rfl⟩
    rcases hcuts with haborts | ⟨⟨e, outcome, hjudged⟩, -⟩
    · cases haborts
    · cases hjudged
  cases x with
  | task t draw =>
    refine ⟨t, fun hcuts => hcuts, ?_⟩
    simp only [events, act]
    cases hstep : b.step? draw t with
    | none =>
      simp only [Option.getD_none, AttemptEvent.ofStep_self]
      exact .refl hb t
    | some b' => exact turns_step? hs hb (fun a h => ha t a h) hback hstep
  | add id config registry clock isAttached =>
    exact hrest (rests_add hb hx.2 id clock isAttached) rfl
  | start i =>
    refine hrest (rests_getD_onNode? hb fun n hn => ?_) rfl
    obtain ⟨hgives, hstore, hbreak⟩ := Node.givesUp_start hn
    exact ⟨hgives, hstore ▸ .refl _, hbreak⟩
  | post i type event keys =>
    refine hrest (rests_getD_onNode? (f := fun h n => ((n.post h type event keys).2, n)) hb fun n _ => ?_)
      rfl
    exact ⟨.refl n, n.goesOn_post hs type event keys⟩
  | process i => exact hrest (rests_concat_call hb rfl rfl) rfl
  | handle i e => exact hx.elim
  | resolve i e outcome => exact hx.elim
  | reapOnce i => exact hx.elim
  | shutdown i => exact hrest (rests_beginShutdown hb i) rfl
  | drop id => exact hrest (rests_drop hb id) rfl
  | operate op =>
    refine hrest (rests_of_hub hb ?_ (b.hub.breakdowns_operate op)) rfl
    rw [b.hub.store_operate]
    exact Store.goesOn_apply hs hx _
  | breakDown breakdowns => exact hx.elim
  | setTime start now => exact hrest (rests_of_hub hb (.refl _) rfl) rfl
  | setClock i clock =>
    exact hrest (rests_modify hb i fun n => Node.KeepsTasks.givesUp ⟨rfl, rfl, rfl⟩ rfl rfl) rfl

end Bus

end DurableQueue
