import DurableQueue.Proofs.Dispatch.CallStep

/-!
Where the claims come from that dispatchers have in hand.

A dispatcher holds claims in its queue, in its claim loop and at work, and so do the calls. Whatever
happens, what is held was held before, was given by the action, or was claimed just now
(`Bus.holds_act`). So everything that is held in a scene is a claim that the store once made
(`Scene.IsKept`), and that claim shows the entry as it was stored then (`Scene.Made`).
-/

namespace DurableQueue

/-- A dispatcher has a claim in hand. -/
def Node.Holds (n : Node) (e : Entry) : Prop :=
  e ∈ n.queue ∨ e ∈ n.hands ∨ ∃ w ∈ n.workers, w.entry? = some e

/-- A dispatcher or a call has a claim in hand. -/
def Bus.Holds (b : Bus) (e : Entry) : Prop :=
  (∃ n ∈ b.nodes, n.Holds e) ∨ ∃ c ∈ b.calls, e ∈ c.held

namespace Node

variable {h h' : Hub} {n n' : Node} {e : Entry}

/-- A dispatcher whose worker changed. -/
theorem Holds.of_set (he : n'.Holds e) {i : Nat} {w : Worker} (hqueue : n'.queue ⊆ n.queue)
    (hhands : n'.hands = n.hands) (hworkers : n'.workers = n.workers.set i w)
    (hentry : ∀ e, w.entry? = some e → n.Holds e) : n.Holds e := by
  rcases he with he | he | ⟨w', hw', he⟩
  · exact .inl (hqueue he)
  · exact .inr (.inl (hhands ▸ he))
  · rw [hworkers] at hw'
    rcases List.mem_or_eq_of_mem_set hw' with hold | rfl
    · exact .inr (.inr ⟨w', hold, he⟩)
    · exact hentry e he

/-- A dispatcher whose claim loop has nothing in hand. -/
theorem Holds.of_loop (he : n'.Holds e) (hqueue : n'.queue = n.queue) (hhands : n'.hands = [])
    (hworkers : n'.workers = n.workers) : n.Holds e := by
  rcases he with he | he | ⟨w, hw, he⟩
  · exact .inl (hqueue ▸ he)
  · rw [hhands] at he
    cases he
  · exact .inr (.inr ⟨w, hworkers ▸ hw, he⟩)

/-- What a dispatcher has in hand after a step, it had before or has just claimed. -/
theorem Step.holds (hs : h.store.IsWellFormed) (hstep : n.Step h h' n') (he : n'.Holds e) :
    n.Holds e ∨ e ∈ Scene.claimsIn h'.store := by
  cases hstep with
  | aside serves skips stays => exact .inl he
  | @taken i first rest stats idle queue skips =>
    have hrest : rest ⊆ n.queue := queue ▸ List.subset_cons_self first rest
    refine .inl (he.of_set hrest rfl rfl fun e' he' => .inl ?_)
    cases he'
    rw [queue, Attempt.entry_begin_]
    exact List.mem_cons_self
  | @worked _ i a a' registry stats busy goes serves skips =>
    refine .inl (he.of_set (List.Subset.refl _) rfl rfl fun e' he' => ?_)
    refine .inr (.inr ⟨_, List.mem_of_getElem? busy, ?_⟩)
    rw [← he', Worker.entry?, Worker.entry?, goes.entry]
  | finished busy free serves skips =>
    refine .inl (he.of_set (List.Subset.refl _) rfl rfl fun e' he' => ?_)
    rcases free with ⟨rfl, -⟩ | rfl <;> cases he'
  | retired idle => exact .inl (he.of_set (List.Subset.refl _) rfl rfl fun e' he' => by cases he')
  | cut skips =>
    rcases he with he | he | ⟨w, hw, he⟩
    · exact .inl (.inl he)
    · exact .inl (.inr (.inl he))
    · obtain ⟨-, -, rfl⟩ := List.mem_map.mp hw
      cases he
  | claimed loop claim skips =>
    rcases he with he | he | he
    · exact .inl (.inl he)
    · exact .inr (Store.mem_claimsIn_of_claim hs claim e he)
    · exact .inl (.inr (.inr he))
  | @sent first rest full loop room =>
    have hhands : n.hands = first :: rest := by rw [hands, loop]
    rcases he with he | he | he
    · rcases List.mem_append.mp he with he | he
      · exact .inl (.inl he)
      · refine .inl (.inr (.inl ?_))
        rw [hhands, List.mem_singleton.mp he]
        exact List.mem_cons_self
    · refine .inl (.inr (.inl ?_))
      rw [hhands]
      exact List.mem_cons_of_mem _ he
    · exact .inl (.inr (.inr he))
  | drained loop subscription hears =>
    refine .inl (he.of_loop rfl ?_ rfl)
    rename_i heard _ _
    cases heard <;> rfl
  | _ => exact .inl (he.of_loop rfl rfl rfl)

theorem Begins.holds (hbegins : n.Begins h h' n') (he : n'.Holds e) : n.Holds e := by
  cases hbegins with
  | refused | declared => exact he
  | started | subscribed =>
    rcases he with he | he | ⟨w, hw, he⟩
    · exact .inl he
    · cases he
    · rw [List.eq_of_mem_replicate hw] at he
      cases he

end Node

namespace Call

variable {b : Bus} {s : Store} {x : BusAction} {c c' : Call} {e : Entry}

theorem Step.held (hstep : c.Step b s c') (he : e ∈ c'.held) : e ∈ c.held ∨ e ∈ Scene.claimsIn s := by
  cases hstep with
  | claimed claims => exact .inr (claims e he)
  | @begun k count n first rest node =>
    refine .inl ?_
    rwa [Call.held, Attempt.entry_begin_] at he
  | went goes =>
    refine .inl ?_
    rwa [Call.held, goes.entry] at he
  | finished booking => exact .inl (List.mem_cons_of_mem _ he)
  | answered r => cases he
  | shuts => cases he

theorem IsGiven.held (hc : c.IsGiven x) (he : e ∈ c.held) : x.claim? = some e := by
  unfold IsGiven at hc
  split at hc
  · cases he
  · cases he
  · exact hc e he
  · rwa [List.mem_singleton.mp he]
  · exact hc.elim

end Call

namespace Bus

variable {b b' : Bus} {x : BusAction} {e : Entry}

theorem Change.holds (hs : b.hub.store.IsWellFormed) (hchange : b.Change x b') {n' : Node}
    (hn' : n' ∈ b'.nodes) (he : n'.Holds e) :
    (∃ n ∈ b.nodes, n.Holds e) ∨ e ∈ Scene.claimsIn b'.hub.store := by
  obtain ⟨k, hk'⟩ := List.mem_iff_getElem?.mp hn'
  cases hk : b.nodes[k]? with
  | none =>
    obtain ⟨id, config, registry, clock, isAttached, -, rfl⟩ := hchange.new_node hk hk'
    rcases he with he | he | ⟨w, hw, -⟩
    · cases he
    · cases he
    · cases hw
  | some n =>
    obtain ⟨n₁, hn₁, hat⟩ := hchange.at_node hk
    obtain rfl : n₁ = n' := Option.some.inj (hn₁.symm.trans hk')
    have hn := List.mem_of_getElem? hk
    cases hat with
    | step step =>
      rcases step.holds hs he with he | he
      · exact .inl ⟨n, hn, he⟩
      · exact .inr he
    | begins asked begins => exact .inl ⟨n, hn, begins.holds he⟩
    | elsewhere elsewhere => exact .inl ⟨n, hn, he⟩

theorem CallChange.held (hchange : b.CallChange x b') {c' : Call} (hc' : c' ∈ b'.calls) (he : e ∈ c'.held) :
    (∃ c ∈ b.calls, e ∈ c.held) ∨ e ∈ Scene.claimsIn b'.hub.store ∨ x.claim? = some e := by
  cases hchange with
  | rest calls => exact .inl ⟨c', calls ▸ hc', he⟩
  | asked given calls =>
    rw [calls] at hc'
    rcases List.mem_append.mp hc' with hc' | hc'
    · exact .inl ⟨c', hc', he⟩
    · cases List.mem_singleton.mp hc'
      exact .inr (.inr (given.held he))
  | stepped task call step calls =>
    rw [calls] at hc'
    rcases List.mem_or_eq_of_mem_set hc' with hc' | rfl
    · exact .inl ⟨c', hc', he⟩
    · rcases step.held he with he | he
      · exact .inl ⟨_, List.mem_of_getElem? call, he⟩
      · exact .inr (.inl he)

/-- What is held was held before, has just been claimed, or is given. -/
theorem holds_act (hs : b.hub.store.IsWellFormed) (x : BusAction) (he : (b.act x).Holds e) :
    b.Holds e ∨ e ∈ Scene.claimsIn (b.act x).hub.store ∨ x.claim? = some e := by
  rcases he with ⟨n', hn', he⟩ | ⟨c', hc', he⟩
  · rcases (b.change_act x).holds hs hn' he with he | he
    · exact .inl (.inl he)
    · exact .inr (.inl he)
  · rcases (callChange_act hs x).held hc' he with he | he
    · exact .inl (.inr he)
    · exact .inr he

end Bus

/-- Two records of one entry, which agree on all that an entry is appended with. -/
structure Entry.IsCopyOf (e d : Entry) : Prop where
  id : e.id = d.id
  payload : e.payload = d.payload
  creatingOwner : e.creatingOwner = d.creatingOwner
  searchKeys : e.searchKeys = d.searchKeys

namespace Entry

variable {e e' d : Entry} {now : Timestamp} {op : StoreOp} {a : Except StoreError StoreAnswer}

theorem IsCopyOf.refl (e : Entry) : e.IsCopyOf e := ⟨rfl, rfl, rfl, rfl⟩

theorem IsCopyOf.symm (h : e.IsCopyOf d) : d.IsCopyOf e :=
  ⟨h.id.symm, h.payload.symm, h.creatingOwner.symm, h.searchKeys.symm⟩

theorem IsCopyOf.trans (h : e.IsCopyOf d) (h' : d.IsCopyOf e') : e.IsCopyOf e' :=
  ⟨h.id.trans h'.id, h.payload.trans h'.payload, h.creatingOwner.trans h'.creatingOwner,
    h.searchKeys.trans h'.searchKeys⟩

theorem IsCopyOf.evolves (h : e.IsCopyOf d) {d' : Entry} (hd : d.Evolves d') : e.IsCopyOf d' where
  id := h.id.trans hd.id.symm
  payload := h.payload.trans hd.payload.symm
  creatingOwner := h.creatingOwner.trans hd.creatingOwner.symm
  searchKeys := h.searchKeys.trans hd.searchKeys.symm

/-- Who is in processing was so before, or was available and has just been claimed. -/
theorem Fate.eq_or_claimedBy (h : Fate now op a e e') (hs : e'.state = .inProcessing) :
    e' = e ∨ e.state = .available ∧ ∃ claimer, e' = e.claimedBy claimer now := by
  rcases h.eq_or_mem_handsOut hs with heq | hlisted
  · exact .inl heq
  · cases h with
    | claimed hop ha wanted listed =>
      exact .inr ⟨(isClaimableAt_iff.mp (Store.isWanted_iff.mp wanted).1).1, _, rfl⟩
    | resolved hop | reaped hop | released hop => subst hop; cases hlisted
    | kept => exact .inl rfl

end Entry

namespace Store

variable {s s' : Store} {op : StoreOp} {now : Timestamp} {a : Except StoreError StoreAnswer} {e : Entry}

/-- A claim that a store holds was held before, or has just been made of an available entry. -/
theorem mem_claimsIn_of_effect (h : s.IsWellFormed) (he : Effect now s op a s')
    (hmem : e ∈ Scene.claimsIn s') : e ∈ Scene.claimsIn s ∨
      ∃ d ∈ s.live, d.state = .available ∧ ∃ claimer, e = d.claimedBy claimer now := by
  obtain ⟨hlive, hstate⟩ := List.mem_filter.mp hmem
  have hstate := beq_iff_eq.mp hstate
  rcases exists_before h he (List.mem_append_left _ hlive) with ⟨d, hd, hfate⟩ | ⟨new, rfl⟩
  · rcases hfate.eq_or_claimedBy hstate with rfl | ⟨havailable, hclaimed⟩
    · refine .inl (List.mem_filter.mpr ⟨h.mem_live_of_not_isTerminal hd ?_, beq_iff_eq.mpr hstate⟩)
      rw [hstate]
      rfl
    · refine .inr ⟨d, h.mem_live_of_not_isTerminal hd ?_, havailable, hclaimed⟩
      rw [havailable]
      rfl
  · cases hstate

end Store

namespace Scene

variable {start : Timestamp} {actions later : List BusAction} {s : Scene} {e : Entry}

theorem run_concat (s : Scene) (actions : List BusAction) (x : BusAction) :
    s.run (actions ++ [x]) = (s.run actions).act x := by
  rw [run, run, List.foldl_append, List.foldl_cons, List.foldl_nil]

/-- What a scene becomes: nothing, if somebody is given what is no claim, or its bus acts and its claims
are noted. -/
theorem act_cases (s : Scene) (x : BusAction) : (x.claim? ≠ none ∧ s.act x = s) ∨
    (∀ e, x.claim? = some e → e ∈ s.claims) ∧
      s.act x = ⟨s.bus.act x, s.claims ++ claimsIn (s.bus.act x).hub.store⟩ := by
  unfold act
  split
  · rename_i hgiven
    exact .inr ⟨fun e he => hgiven e he, rfl⟩
  · rename_i hgiven
    refine .inl ⟨fun hnone => hgiven fun e he => ?_, rfl⟩
    rw [hnone] at he
    cases he

/-- The store of a scene is only changed by operations on it. -/
theorem moves_act (s : Scene) (x : BusAction) :
    s.bus.hub.store.Moves s.bus.hub.time (s.act x).bus.hub.store := by
  rcases s.act_cases x with ⟨-, hsame⟩ | ⟨-, hact⟩
  · exact .inl (congrArg (fun s => s.bus.hub.store) hsame)
  · rw [hact]
    exact (s.bus.change_act x).moves

/-- A claim that a run made of an entry. It is the entry as it was stored, with the owner and the time of
the claim, and was stored so. -/
def Made (start : Timestamp) (actions : List BusAction) (e : Entry) : Prop :=
  ∃ earlier x rest d claimer now, actions = earlier ++ x :: rest ∧
    d ∈ ((startingAt start).run earlier).bus.hub.store.live ∧ d.state = .available ∧
      e = d.claimedBy claimer now ∧ e ∈ ((startingAt start).run (earlier ++ [x])).bus.hub.store.live

theorem Made.concat (h : Made start actions e) (x : BusAction) : Made start (actions ++ [x]) e := by
  obtain ⟨earlier, y, rest, d, claimer, now, rfl, hd⟩ := h
  exact ⟨earlier, y, rest ++ [x], d, claimer, now, by simp, hd⟩

/-- What a run keeps of the claims that it made and of those that are held. -/
structure IsKept (s : Scene) (start : Timestamp) (actions : List BusAction) : Prop where
  wellFormed : s.bus.hub.store.IsWellFormed
  current : ∀ e ∈ claimsIn s.bus.hub.store, e ∈ s.claims
  held : ∀ e, s.bus.Holds e → e ∈ s.claims
  made : ∀ e ∈ s.claims, Made start actions e
  /-- Claims are copies of what is stored. -/
  vouched : ∀ e ∈ s.claims, ∃ d ∈ s.bus.hub.store.stored, e.IsCopyOf d

theorem isKept_startingAt (start : Timestamp) : (startingAt start).IsKept start [] where
  wellFormed := Store.isWellFormed_empty
  current _ he := by cases he
  held e he := by rcases he with ⟨n, hn, -⟩ | ⟨c, hc, -⟩ <;> contradiction
  made _ he := by cases he
  vouched _ he := by cases he

/-- What is stored stays stored, perhaps changed. -/
theorem stored_act (hs : s.bus.hub.store.IsWellFormed) (x : BusAction) {d : Entry}
    (hd : d ∈ s.bus.hub.store.stored) : ∃ d' ∈ (s.act x).bus.hub.store.stored, d.Evolves d' := by
  rcases s.moves_act x with hsame | ⟨op, hop⟩
  · exact ⟨d, hsame ▸ hd, .refl d⟩
  · obtain ⟨d', hd', hfate⟩ := Store.exists_fate hs (Store.effect_apply _ op _) hd
    exact ⟨d', hop ▸ hd', hfate.evolves⟩

theorem wellFormed_act (hs : s.bus.hub.store.IsWellFormed) (x : BusAction) :
    (s.act x).bus.hub.store.IsWellFormed := by
  rcases s.moves_act x with hsame | ⟨op, hop⟩
  · exact hsame ▸ hs
  · exact hop ▸ Store.isWellFormed_of_effect hs (Store.effect_apply _ op _)

theorem IsKept.act (hs : s = (startingAt start).run actions) (h : s.IsKept start actions) (x : BusAction) :
    (s.act x).IsKept start (actions ++ [x]) := by
  have hvouched : ∀ e ∈ s.claims, ∃ d ∈ (s.act x).bus.hub.store.stored, e.IsCopyOf d := by
    intro e he
    obtain ⟨d, hd, hcopy⟩ := h.vouched e he
    obtain ⟨d', hd', hevolves⟩ := stored_act h.wellFormed x hd
    exact ⟨d', hd', hcopy.evolves hevolves⟩
  have hmade : ∀ e ∈ s.claims, Made start (actions ++ [x]) e := fun e he => (h.made e he).concat x
  have hwell := wellFormed_act h.wellFormed x
  have hcurrent : ∀ e ∈ claimsIn (s.act x).bus.hub.store, Made start (actions ++ [x]) e := by
    intro e he
    rcases s.moves_act x with hsame | ⟨op, hop⟩
    · exact hmade e (h.current e (hsame ▸ he))
    · rcases Store.mem_claimsIn_of_effect h.wellFormed (Store.effect_apply _ op _) (hop ▸ he) with
        hold | ⟨d, hd, havailable, claimer, rfl⟩
      · exact hmade e (h.current e hold)
      · refine ⟨actions, x, [], d, claimer, _, rfl, hs ▸ hd, havailable, rfl, ?_⟩
        rw [run_concat, ← hs]
        exact List.mem_of_mem_filter he
  rcases s.act_cases x with ⟨-, hsame⟩ | ⟨hgiven, hact⟩
  · rw [hsame] at hvouched ⊢
    exact ⟨h.wellFormed, h.current, h.held, hmade, hvouched⟩
  · rw [hact] at hvouched hwell hcurrent ⊢
    have hstored : ∀ e ∈ claimsIn (s.bus.act x).hub.store, e ∈ (s.bus.act x).hub.store.stored := fun e he =>
      List.mem_append_left _ (List.mem_of_mem_filter he)
    refine ⟨hwell, fun e he => List.mem_append_right _ he, fun e he => ?_, fun e he => ?_, fun e he => ?_⟩
    · rcases Bus.holds_act h.wellFormed x he with he | he | he
      · exact List.mem_append_left _ (h.held e he)
      · exact List.mem_append_right _ he
      · exact List.mem_append_left _ (hgiven e he)
    · rcases List.mem_append.mp he with he | he
      · exact hmade e he
      · exact hcurrent e he
    · rcases List.mem_append.mp he with he | he
      · exact hvouched e he
      · exact ⟨e, hstored e he, .refl e⟩

theorem isKept_run (start : Timestamp) (actions : List BusAction) :
    ((startingAt start).run actions).IsKept start actions := by
  induction actions using List.reverseRecOn with
  | nil => exact isKept_startingAt start
  | append_singleton actions x ih =>
    rw [run_concat]
    exact ih.act rfl x

/-- What happens in a scene happens to its bus, as far as it can. -/
theorem bus_run (start : Timestamp) (actions : List BusAction) :
    ∃ more, ((startingAt start).run actions).bus = (Bus.startingAt start).run more := by
  induction actions using List.reverseRecOn with
  | nil => exact ⟨[], rfl⟩
  | append_singleton actions x ih =>
    obtain ⟨more, hmore⟩ := ih
    rw [run_concat]
    rcases ((startingAt start).run actions).act_cases x with ⟨-, hsame⟩ | ⟨-, hact⟩
    · rw [hsame]
      exact ⟨more, hmore⟩
    · refine ⟨more ++ [x], ?_⟩
      rw [hact, Bus.run_concat, hmore]

/-- What is stored stays stored, perhaps changed, in a run. -/
theorem stored_run (actions later : List BusAction) {d : Entry}
    (hd : d ∈ ((startingAt start).run actions).bus.hub.store.stored) :
    ∃ d' ∈ ((startingAt start).run (actions ++ later)).bus.hub.store.stored, d.IsCopyOf d' := by
  induction later using List.reverseRecOn with
  | nil =>
    rw [List.append_nil]
    exact ⟨d, hd, .refl d⟩
  | append_singleton later x ih =>
    obtain ⟨d', hd', hcopy⟩ := ih
    obtain ⟨d'', hd'', hevolves⟩ := stored_act (isKept_run start (actions ++ later)).wellFormed x hd'
    rw [← List.append_assoc, run_concat]
    exact ⟨d'', hd'', hcopy.evolves hevolves⟩

end Scene

end DurableQueue
