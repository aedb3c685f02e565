import DurableQueue.Proofs.Dispatch.AttemptLog
import DurableQueue.Proofs.Dispatch.NodeStep
import DurableQueue.Proofs.Lists

/-!
What happens to a bus, seen from one of its dispatchers.

Every action is a `Bus.Change`: at most one dispatcher takes a step or is started, and one may be
added. A dispatcher keeps its number, so whatever happens is done by it or happens elsewhere
(`Bus.Change.at_node`), and one that is new has done nothing yet (`Bus.Change.new_node`).
-/

namespace DurableQueue

namespace Bus

/-- What an action does to a bus: a dispatcher takes a step or is started, work is done beside all
dispatchers, the time is set, or a dispatcher is added. -/
inductive Change (b : Bus) (x : BusAction) : Bus → Prop where
  | moved {b' : Bus} {i : Nat} {m m' : Node} (node : b.nodes[i]? = some m)
    (step : m.Step b.hub b'.hub m') (nodes : b'.nodes = b.nodes.set i m') : Change b x b'
  | begun {b' : Bus} {i : Nat} {m m' : Node} (asked : x = .start i) (node : b.nodes[i]? = some m)
    (begins : m.Begins b.hub b'.hub m') (nodes : b'.nodes = b.nodes.set i m') : Change b x b'
  | served {b' : Bus} (serves : b.hub.Serves b'.hub) (nodes : b'.nodes = b.nodes) : Change b x b'
  | timed {b' : Bus} (start : Timestamp) (now : Nat) (asked : x = .setTime start now)
    (hub : b'.hub = { b.hub with start, now }) (nodes : b'.nodes = b.nodes) : Change b x b'
  | added {b' : Bus} (id : NodeId) (config : DispatchConfig) (registry : Registry) (clock : NodeClock)
    (isAttached : Bool) (asked : x = .add id config registry clock isAttached) (hub : b'.hub = b.hub)
    (nodes : b'.nodes = (b.drop id).nodes ++ [.unstarted id config registry clock isAttached]) :
    Change b x b'

variable {b b' : Bus} {x : BusAction}

theorem Change.rest (b : Bus) : b.Change x b := .served (.refl b.hub) rfl

theorem change_onNode? {i : Nat} {f : Hub → Node → Option (Hub × Node)}
    (hf : ∀ n h' n', f b.hub n = some (h', n') → n.Step b.hub h' n')
    (hstep : b.onNode? i f = some b') : b.Change x b' := by
  obtain ⟨n, hn, hstep⟩ := Option.bind_eq_some_iff.mp hstep
  obtain ⟨⟨h', n'⟩, hrun, heq⟩ := Option.bind_eq_some_iff.mp hstep
  cases heq
  exact .moved hn (hf n h' n' hrun) rfl

/-- A dispatcher that does something at once, if it is there. -/
theorem change_getD_onNode? {i : Nat} {f : Hub → Node → Hub × Node}
    (hf : ∀ n : Node, n.Step b.hub (f b.hub n).1 (f b.hub n).2) :
    b.Change x ((b.onNode? i fun h n => some (f h n)).getD b) := by
  cases hstep : b.onNode? i fun h n => some (f h n) with
  | none => exact .rest b
  | some b' =>
    refine change_onNode? (fun n h' n' hrun => ?_) hstep
    obtain ⟨rfl, rfl⟩ := Prod.mk.inj (Option.some.inj hrun)
    exact hf n

theorem change_modify (i : Nat) {f : Node → Node} (hf : ∀ n : Node, n.Step b.hub b.hub (f n))
    (hhub : b'.hub = b.hub) (hnodes : b'.nodes = b.nodes.modify i f) : b.Change x b' := by
  rw [List.modify_eq_set_getElem?] at hnodes
  cases hi : b.nodes[i]? with
  | none =>
    rw [hi] at hnodes
    exact .served (hhub ▸ .refl _) hnodes
  | some n =>
    rw [hi] at hnodes
    exact .moved hi (hhub ▸ hf n) hnodes

theorem change_stepCall? {draw : Draw} {i : Nat} (hstep : b.stepCall? draw i = some b') :
    b.Change x b' := by
  obtain ⟨c, -, hstep⟩ := Option.bind_eq_some_iff.mp hstep
  cases c with
  | process node stage =>
    obtain ⟨n, hn, hstep⟩ := Option.bind_eq_some_iff.mp hstep
    obtain ⟨⟨next, h', n'⟩, hstage, heq⟩ := Option.bind_eq_some_iff.mp hstep
    cases heq
    exact .moved hn (.of_process hstage) rfl
  | shutdown node stage =>
    obtain ⟨n, hn, hstep⟩ := Option.bind_eq_some_iff.mp hstep
    obtain ⟨⟨next, h', n'⟩, hstage, heq⟩ := Option.bind_eq_some_iff.mp hstep
    cases heq
    exact .moved hn (.of_shutdown hstage) rfl
  | «over» r => cases hstep

theorem change_step? {draw : Nat → Draw} {t : BusTask} (hstep : b.step? draw t = some b') :
    b.Change x b' := by
  cases t with
  | call i =>
    simp only [step?] at hstep
    split at hstep
    · exact change_stepCall? hstep
    · exact change_stepCall? hstep
  | worker node i =>
    exact change_onNode? (f := fun h n => Worker.step? (draw node) h n i)
      (fun _ _ _ hrun => .of_worker hrun) hstep
  | claimLoop node => exact change_onNode? (fun _ _ _ hrun => .of_claimLoop hrun) hstep
  | reaper node => exact change_onNode? (fun _ _ _ hrun => .of_reaper hrun) hstep

theorem change_drop (b : Bus) (id : NodeId) : b.Change x (b.drop id) := by
  unfold drop
  split
  · exact change_modify _ (Node.Step.of_cancel b.hub) rfl rfl
  · exact .rest b

theorem serves_post (h : Hub) (n : Node) (type : EventType) (event : Datum) (keys : SearchKeys) :
    h.Serves (n.post h type event keys).2 := by
  unfold Node.post
  split
  · exact .refl h
  · rename_i payload _
    have hserves : h.Serves (h.append ⟨payload, n.id, keys⟩).2 := by
      have hoperate : (h.operate (.append ⟨payload, n.id, keys⟩)).2 =
          (h.append ⟨payload, n.id, keys⟩).2 := by
        simp only [Hub.operate]
        rcases h.append ⟨payload, n.id, keys⟩ with ⟨_ | _, h'⟩ <;> rfl
      rw [← hoperate]
      exact .operates _ (h.operate _).2.journal (h.operate _).2.breakdowns
    rcases happend : h.append ⟨payload, n.id, keys⟩ with ⟨_ | e, h'⟩
    · rw [happend] at hserves
      exact hserves
    · rw [happend] at hserves
      exact hserves

theorem change_reapOnce (b : Bus) (i : Nat) : b.Change x (b.reapOnce i).2 := by
  unfold reapOnce
  split
  · exact .rest b
  · exact .served (.rests _ _) rfl
  · rename_i n hi _
    rcases hreap : n.claims.reap b.hub.store b.hub.time with ⟨e | es, s⟩
    · exact .served (.of_reap hreap) rfl
    · refine .moved hi (.of_worksTo ?_ (.of_reap hreap)) rfl
      exact .count (.refl n) fun _ => rfl

theorem change_beginShutdown (b : Bus) (i : Nat) : b.Change x (b.beginShutdown i) := by
  unfold beginShutdown
  split
  · rename_i n hi
    exact .moved hi (Node.Step.of_cancel b.hub n) rfl
  · exact .rest b

theorem change_start (b : Bus) (i : Nat) :
    b.Change (.start i) ((b.onNode? i fun h n => some (n.start h).2).getD b) := by
  cases hi : b.nodes[i]? with
  | none =>
    have hnone : (b.onNode? i fun h n => some (n.start h).2) = none := by simp [onNode?, hi]
    rw [hnone]
    exact .rest b
  | some n =>
    have hsome : (b.onNode? i fun h n => some (n.start h).2) =
        some { b with hub := (n.start b.hub).2.1, nodes := b.nodes.set i (n.start b.hub).2.2 } := by
      simp [onNode?, hi]
    rw [hsome]
    exact .begun rfl hi (n.begins_start b.hub) rfl

/-- Whatever happens is a change of one of the listed kinds. -/
theorem change_act (b : Bus) (x : BusAction) : b.Change x (b.act x) := by
  cases x with
  | task t draw =>
    simp only [act]
    cases hstep : b.step? draw t with
    | none => exact .rest b
    | some b' => exact change_step? hstep
  | add id config registry clock isAttached =>
    refine .added id config registry clock isAttached rfl ?_ rfl
    simp only [act, add, drop, Node.unstarted]
    split <;> rfl
  | start i => exact b.change_start i
  | post i type event keys =>
    exact change_getD_onNode? (f := fun h n => ((n.post h type event keys).2, n)) fun n =>
      .of_worksTo (.refl n) (serves_post b.hub n type event keys)
  | process i => exact .served (.refl b.hub) rfl
  | handle i e => exact .served (.refl b.hub) rfl
  | resolve i e outcome => exact .served (.refl b.hub) rfl
  | reapOnce i => exact b.change_reapOnce i
  | shutdown i => exact b.change_beginShutdown i
  | drop id => exact b.change_drop id
  | operate op =>
    exact .served (.operates op (b.hub.operate op).2.journal (b.hub.operate op).2.breakdowns) rfl
  | breakDown breakdowns => exact .served (.rests b.hub.journal breakdowns) rfl
  | setTime start now => exact .timed start now rfl rfl rfl
  | setClock i clock =>
    exact change_modify i (fun n => .aside (.refl b.hub) rfl (fun _ => rfl) (.refl _)) rfl rfl

/-- Something happens, but not to the dispatcher of this number. -/
inductive Elsewhere (b : Bus) (k : Nat) : Hub → Prop where
  | moved {i : Nat} {m m' : Node} {h' : Hub} (other : i ≠ k) (node : b.nodes[i]? = some m)
    (step : m.Step b.hub h' m') : Elsewhere b k h'
  | begun {i : Nat} {m m' : Node} {h' : Hub} (other : i ≠ k) (node : b.nodes[i]? = some m)
    (begins : m.Begins b.hub h' m') : Elsewhere b k h'
  | served {h' : Hub} (serves : b.hub.Serves h') : Elsewhere b k h'
  | timed (start : Timestamp) (now : Nat) : Elsewhere b k { b.hub with start, now }

/-- What an action is to the dispatcher of this number. -/
inductive At (b : Bus) (k : Nat) (x : BusAction) (n : Node) (h' : Hub) : Node → Prop where
  | step {n' : Node} (step : n.Step b.hub h' n') : At b k x n h' n'
  | begins {n' : Node} (asked : x = .start k) (begins : n.Begins b.hub h' n') : At b k x n h' n'
  | elsewhere (elsewhere : b.Elsewhere k h') : At b k x n h' n

/-- A dispatcher keeps its number. What happens is a step of it, or happens elsewhere. -/
theorem Change.at_node (h : b.Change x b') {k : Nat} {n : Node} (hk : b.nodes[k]? = some n) :
    ∃ n', b'.nodes[k]? = some n' ∧ b.At k x n b'.hub n' := by
  cases h with
  | @moved i m m' node step nodes =>
    rw [nodes]
    by_cases hik : i = k
    · subst hik
      obtain rfl : n = m := Option.some.inj (hk.symm.trans node)
      exact ⟨m', getElem?_set_of_some hk m', .step step⟩
    · exact ⟨n, (List.getElem?_set_ne hik).trans hk, .elsewhere (.moved hik node step)⟩
  | @begun i m m' asked node begins nodes =>
    rw [nodes]
    by_cases hik : i = k
    · subst hik
      obtain rfl : n = m := Option.some.inj (hk.symm.trans node)
      exact ⟨m', getElem?_set_of_some hk m', .begins asked begins⟩
    · exact ⟨n, (List.getElem?_set_ne hik).trans hk, .elsewhere (.begun hik node begins)⟩
  | served serves nodes => exact ⟨n, nodes ▸ hk, .elsewhere (.served serves)⟩
  | timed start now asked hub nodes => exact ⟨n, nodes ▸ hk, .elsewhere (hub ▸ .timed start now)⟩
  | added id config registry clock isAttached asked hub nodes =>
    rw [nodes, hub]
    have hdrop : ∃ n', (b.drop id).nodes[k]? = some n' ∧ (n' = n.cancel ∨ n' = n) := by
      unfold drop
      split
      · simp only [List.getElem?_modify, hk, Option.map_eq_map, Option.map_some]
        split
        · exact ⟨_, rfl, .inl rfl⟩
        · exact ⟨_, rfl, .inr rfl⟩
      · exact ⟨n, hk, .inr rfl⟩
    obtain ⟨n', hn', hcancel⟩ := hdrop
    refine ⟨n', getElem?_snoc_eq_some_iff.mpr (.inl hn'), ?_⟩
    rcases hcancel with rfl | rfl
    · exact .step (Node.Step.of_cancel b.hub n)
    · exact .elsewhere (.served (.refl b.hub))

/-- A dispatcher that was not there before has done nothing yet. -/
theorem Change.new_node (h : b.Change x b') {k : Nat} {n' : Node} (hk : b.nodes[k]? = none)
    (hk' : b'.nodes[k]? = some n') :
    ∃ id config registry clock isAttached, x = .add id config registry clock isAttached ∧
      n' = .unstarted id config registry clock isAttached := by
  have hunset {i : Nat} {m : Node} (hset : (b.nodes.set i m)[k]? = some n') : False := by
    rw [List.getElem?_eq_none_iff.mpr] at hset
    · cases hset
    · rw [List.length_set]
      exact List.getElem?_eq_none_iff.mp hk
  cases h with
  | moved node step nodes => exact (hunset (nodes ▸ hk')).elim
  | begun asked node begins nodes => exact (hunset (nodes ▸ hk')).elim
  | served serves nodes =>
    rw [nodes, hk] at hk'
    cases hk'
  | timed start now asked hub nodes =>
    rw [nodes, hk] at hk'
    cases hk'
  | added id config registry clock isAttached asked hub nodes =>
    have hdrop : (b.drop id).nodes[k]? = none := by
      have hlength : (b.drop id).nodes.length = b.nodes.length := by
        unfold drop
        split
        · exact List.length_modify ..
        · rfl
      rw [List.getElem?_eq_none_iff, hlength]
      exact List.getElem?_eq_none_iff.mp hk
    rw [nodes, getElem?_snoc_eq_some_iff, hdrop] at hk'
    rcases hk' with hold | ⟨-, rfl⟩
    · cases hold
    · exact ⟨id, config, registry, clock, isAttached, asked, rfl⟩

end Bus

/-! The store of a bus is only changed by operations on it. -/

variable {h h' : Hub}

/-- A store after one operation at most. -/
def Store.Moves (s : Store) (now : Timestamp) (s' : Store) : Prop :=
  s' = s ∨ ∃ op, s' = (s.apply op now).2

theorem Hub.Serves.moves (hserves : h.Serves h') : h.store.Moves h.time h'.store := by
  cases hserves with
  | rests journal breakdowns => exact .inl rfl
  | operates op journal breakdowns =>
    rw [Hub.operate_eq]
    exact .inr ⟨op, rfl⟩

theorem Node.Step.moves {n n' : Node} (hstep : n.Step h h' n') : h.store.Moves h.time h'.store := by
  cases hstep with
  | aside serves | worked _ _ serves | finished _ _ serves => exact serves.moves
  | claimed loop claim => exact (Hub.Serves.of_claim claim).moves
  | missed loop claim => exact (Hub.Serves.of_claim claim).moves
  | stopped running ends =>
    unfold ClaimLoop.stop
    cases n.subscription <;> exact .inl rfl
  | _ => exact .inl rfl

theorem Node.Begins.store_eq {n n' : Node} (hbegins : n.Begins h h' n') : h'.store = h.store := by
  cases hbegins <;> rfl

theorem Store.kept_or_claimed_of_effect {s s' : Store} {op : StoreOp} {now : Timestamp}
    {a : Except StoreError StoreAnswer} (hs : s.IsWellFormed) (heffect : Effect now s op a s')
    {e : Entry} (he : e ∈ s.stored) (hfree : e.state ≠ .inProcessing) :
    s'.IsWellFormed ∧ (e ∈ s'.stored ∨ e.state = .available ∧
      ∃ claimer time, e.claimedBy claimer time ∈ s'.live) := by
  have hs' := isWellFormed_of_effect hs heffect
  obtain ⟨e', he', hfate⟩ := exists_fate hs heffect he
  refine ⟨hs', ?_⟩
  cases hfate with
  | kept unclaimed untaken => exact .inl he'
  | claimed hop ha wanted listed =>
    have hclaimable := (Entry.isClaimableAt_iff.mp (isWanted_iff.mp wanted).1).1
    exact .inr ⟨hclaimable, _, _, hs'.mem_live_of_not_isTerminal he' rfl⟩
  | resolved hop ha hid same move => exact absurd (isSameClaim_iff.mp same).1 hfree
  | reaped hop ha hc stale listed only => exact absurd (Entry.isStaleClaim_iff.mp stale).1 hfree
  | released hop ha held listed only => exact absurd (Entry.isHeldBy_iff.mp held).1 hfree

namespace Bus

variable {b b' : Bus} {x : BusAction}

theorem Change.moves (hchange : b.Change x b') : b.hub.store.Moves b.hub.time b'.hub.store := by
  cases hchange with
  | moved node step nodes => exact step.moves
  | begun asked node begins nodes => exact .inl begins.store_eq
  | served serves nodes => exact serves.moves
  | timed start now asked hub nodes => exact .inl (hub ▸ rfl)
  | added id config registry clock isAttached asked hub nodes => exact .inl (hub ▸ rfl)

theorem run_concat (b : Bus) (actions : List BusAction) (x : BusAction) :
    b.run (actions ++ [x]) = (b.run actions).act x := by
  rw [run, run, List.foldl_append, List.foldl_cons, List.foldl_nil]

theorem run_append (b : Bus) (actions more : List BusAction) :
    b.run (actions ++ more) = (b.run actions).run more :=
  List.foldl_append

/-- What the operations of a store keep is kept by a run. -/
theorem store_run_induction {p : Store → Prop} (hop : ∀ s op now, p s → p (s.apply op now).2)
    (hb : p b.hub.store) (actions : List BusAction) : p (b.run actions).hub.store := by
  induction actions generalizing b with
  | nil => exact hb
  | cons y rest ih =>
    refine ih ?_
    rcases (b.change_act y).moves with hsame | ⟨op, hop'⟩
    · exact hsame ▸ hb
    · exact hop' ▸ hop _ op _ hb

theorem isWellFormed_run (start : Timestamp) (actions : List BusAction) :
    ((startingAt start).run actions).hub.store.IsWellFormed :=
  store_run_induction
    (fun s op now hs => Store.isWellFormed_of_effect hs (Store.effect_apply s op now))
    Store.isWellFormed_empty actions

/-- An entry that is not in processing stays as it is until it is claimed. -/
theorem kept_or_claimed (hb : b.hub.store.IsWellFormed) {e : Entry} (he : e ∈ b.hub.store.stored)
    (hfree : e.state ≠ .inProcessing) (actions : List BusAction) :
    e ∈ (b.run actions).hub.store.stored ∨
      e.state = .available ∧ ∃ more rest, actions = more ++ rest ∧
        ∃ claimer time, e.claimedBy claimer time ∈ (b.run more).hub.store.live := by
  induction actions generalizing b with
  | nil => exact .inl he
  | cons y rest ih =>
    have hnext : (b.act y).hub.store.IsWellFormed ∧
        (e ∈ (b.act y).hub.store.stored ∨ e.state = .available ∧
          ∃ claimer time, e.claimedBy claimer time ∈ (b.act y).hub.store.live) := by
      rcases (b.change_act y).moves with hsame | ⟨op, hop⟩
      · exact hsame ▸ ⟨hb, .inl he⟩
      · exact hop ▸ Store.kept_or_claimed_of_effect hb (Store.effect_apply _ op _) he hfree
    obtain ⟨hact, hkept | ⟨havailable, claimer, time, hclaimed⟩⟩ := hnext
    · rcases ih hact hkept with hkept | ⟨havailable, more, rest', rfl, hclaimed⟩
      · exact .inl hkept
      · exact .inr ⟨havailable, y :: more, rest', rfl, hclaimed⟩
    · exact .inr ⟨havailable, [y], rest, rfl, claimer, time, hclaimed⟩

end Bus

end DurableQueue
