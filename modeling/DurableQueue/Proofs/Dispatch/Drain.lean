import DurableQueue.Proofs.Dispatch.Outcomes
import DurableQueue.Proofs.Dispatch.Quota

/-!
A dispatcher that is alone with its store.

Its handlers leave the store alone (`Effect.IsQuiet`), the clock of the store stands still, and the store is
not made to fail (`Hub.IsCalm`). Then the batch in hand is stored as it was claimed (`ProcessStage.IsKept`),
and every step of its call is one of `Quota.Step`.
-/

namespace DurableQueue

/-- An effect that leaves the store alone. -/
def Effect.IsQuiet : Effect → Prop
  | .operate op => op.IsReading
  | _ => True

/-- A hub whose clock stands still and whose operations do not fail. -/
structure Hub.IsCalm (q : Quota) (h : Hub) : Prop where
  time : h.time = q.now
  claims : h.breakdowns.claim = 0
  updates : h.breakdowns.update = 0
  unfailing : h.store.failuresLeft = 0
  ascending : (h.store.live.map Entry.id).Pairwise (· < ·)

/-- A dispatcher that claims for this quota, with handlers that leave the store alone. -/
structure Node.DrawsOn (n : Node) (q : Quota) : Prop where
  owner : n.claims.ownerFilter = q.owner
  limit : n.config.retryPolicy.maxFailureRetries = q.limit
  room : 0 < n.config.maxEntriesClaimed
  quiet : n.registry.Does Effect.IsQuiet

/-- An attempt of a quiet handler, or one whose record was built within the limit. -/
def Attempt.IsQuiet (limit : UInt32) : Attempt → Prop
  | handling _ effects _ | sleeping _ _ effects _ => ∀ effect ∈ effects, effect.IsQuiet
  | storing e next outcome => ∃ policy draw now, policy.maxFailureRetries = limit ∧
      outcome.nextEntry policy draw e now = some next
  | _ => True

namespace ProcessStage

/-- The claims of a batch that are not stored. -/
def inHand (stage : ProcessStage) : List Entry := (stage.attempt?.map Attempt.entry).toList ++ stage.waiting

/-- A batch of nothing has found nothing due. -/
def IsCounted (q : Quota) (s : Store) : ProcessStage → Prop
  | between 0 rest => rest = [] ∧ q.due s = []
  | attempting count _ _ => 0 < count
  | _ => True

/-- A batch whose claims are stored as they were made. -/
structure IsKept (q : Quota) (s : Store) (stage : ProcessStage) : Prop where
  held : ∀ e ∈ stage.inHand, s.HoldsClaim e
  distinct : (stage.inHand.map Entry.id).Nodup
  attempt : ∀ a ∈ stage.attempt?, a.IsQuiet q.limit
  counted : stage.IsCounted q s

end ProcessStage

variable {q : Quota} {draw : Draw} {h h' : Hub} {n n' : Node} {a a' : Attempt} {p : Progress} {s : Store}
  {e next : Entry} {count : Nat} {rest : List Entry}

theorem Hub.IsCalm.with_store (hh : h.IsCalm q) {s : Store} (hleft : s.failuresLeft = h.store.failuresLeft)
    (hids : s.live.map Entry.id = h.store.live.map Entry.id) : ({ h with store := s } : Hub).IsCalm q where
  time := hh.time
  claims := hh.claims
  updates := hh.updates
  unfailing := hleft.trans hh.unfailing
  ascending := hids ▸ hh.ascending

theorem Node.DrawsOn.withStats (hn : n.DrawsOn q) (f : DispatchStats → DispatchStats) :
    (n.count f).DrawsOn q :=
  ⟨hn.owner, hn.limit, hn.room, hn.quiet⟩

/-- The store in which the record of a claim takes its place. -/
theorem Store.HoldsClaim.exists_replace (hs : (s.live.map Entry.id).Nodup) (hheld : s.HoldsClaim e) :
    ∃ older younger, s.live = older ++ e :: younger ∧
      ∀ e', e'.id = e.id → s.replace e' = { s with live := older ++ e' :: younger } := by
  obtain ⟨older, younger, hlive⟩ := List.append_of_mem (List.mem_of_find?_eq_some hheld.stored)
  refine ⟨older, younger, hlive, fun e' hid => ?_⟩
  rw [hlive, List.map_append, List.map_cons, List.nodup_append] at hs
  obtain ⟨-, hyounger, holder⟩ := hs
  have hkeep (es : List Entry) (hes : ∀ f ∈ es, f.id ≠ e.id) :
      (es.map fun old => if old.id = e'.id then e' else old) = es := by
    rw [List.map_congr_left fun f hf => if_neg (hid ▸ hes f hf), List.map_id']
  have hmapped : (s.live.map fun old => if old.id = e'.id then e' else old) = older ++ e' :: younger := by
    rw [hlive, List.map_append, List.map_cons, if_pos hid.symm, hkeep older, hkeep younger]
    · exact fun f hf heq => (List.nodup_cons.mp hyounger).1 (heq ▸ List.mem_map_of_mem hf)
    · exact fun f hf => holder _ (List.mem_map_of_mem hf) _ List.mem_cons_self
  rw [replace, hmapped]

/-- A record that is built within the limit makes a claim available only with one more failure. -/
theorem Quota.share_resolved {policy : RetryPolicy} {outcome : DispatchOutcome} {now : Timestamp}
    (hlimit : policy.maxFailureRetries = q.limit) (hnext : outcome.nextEntry policy draw e now = some next)
    (havailable : next.state = .available) (now' : Timestamp) :
    q.share (Store.resolved e next now') + 1 ≤ q.share e := by
  cases outcome with
  | processed =>
    cases hnext
    cases havailable
  | undecodable reason =>
    cases hnext
    cases havailable
  | handlerFailed detail =>
    obtain ⟨decision, hdecision, rfl⟩ := Option.map_eq_some_iff.mp hnext
    cases decision with
    | giveUp reason => cases havailable
    | retry t =>
      have hlt := RetryPolicy.lt_of_decide_eq_retry hdecision
      have hcount := toNat_countFailure e.errorCount
      have hbound := q.limit.toNat_lt
      rw [share, DispatchOutcome.errorCount_resolved rfl, share]
      rw [hlimit, UInt32.lt_iff_toNat_lt] at hlt
      simp only [UInt32.size] at hcount
      omega

/-- As long as an attempt goes on, nothing is told of it. -/
theorem AttemptEvent.ofStep_some (h : Hub) (t : BusTask) (a a' : Attempt) :
    ofStep h t (some a) (some a') = [] := by
  cases a <;> rfl

/-- What a step makes of a quiet attempt and of the store. -/
inductive Attempt.QuietStep (q : Quota) (s : Store) : Attempt → Progress → Store → Prop where
  | goes {a a' : Attempt} (before : a.open? = some a) (after : a'.open? = some a')
    (entry : a'.entry = a.entry) (quiet : a'.IsQuiet q.limit) : QuietStep q s a (.going a') s
  | stores {e next : Entry} {outcome : DispatchOutcome} {verdict : Verdict}
    (update : s.update e next q.now = (.ok (), s.replace (Store.resolved e next q.now))) :
    QuietStep q s (.storing e next outcome) (.going (.booking e verdict))
      (s.replace (Store.resolved e next q.now))
  | ends {e : Entry} {verdict : Verdict} : QuietStep q s (.booking e verdict) .finished s
  | breaks {e : Entry} {outcome : DispatchOutcome} : QuietStep q s (.judged e outcome) .brokeDown s

/-- A quiet attempt leaves everything but its record alone. -/
theorem Attempt.quietStep_step? (hh : h.IsCalm q) (hn : n.DrawsOn q) (ha : a.IsQuiet q.limit)
    (hheld : a.open? = some a → h.store.HoldsClaim a.entry) (hstep : a.step? draw h n = some (p, h', n')) :
    QuietStep q h.store a p h'.store ∧ h'.IsCalm q ∧ n'.DrawsOn q := by
  cases a with
  | handling e effects result =>
    cases effects with
    | nil =>
      cases hstep
      exact ⟨.goes rfl rfl rfl trivial, hh, hn⟩
    | cons effect effects =>
      obtain ⟨heffect, heffects⟩ := List.forall_mem_cons.mp ha
      cases effect with
      | note note =>
        cases hstep
        exact ⟨.goes rfl rfl rfl heffects, ⟨hh.time, hh.claims, hh.updates, hh.unfailing, hh.ascending⟩, hn⟩
      | sleep span =>
        cases hstep
        exact ⟨.goes rfl rfl rfl heffects, hh, hn⟩
      | remember d =>
        cases hstep
        exact ⟨.goes rfl rfl rfl heffects, hh, hn.owner, hn.limit, hn.room, hn.quiet.remember _ d⟩
      | operate op =>
        have hperform : perform h n e (.operate op) = (h, n) := by
          rw [perform, Hub.operate_of_isReading hh.unfailing heffect]
        rw [step?, hperform] at hstep
        · cases hstep
          exact ⟨.goes rfl rfl rfl heffects, hh, hn⟩
        · intro _ hremember
          cases hremember
  | sleeping e wakeAt effects result =>
    simp only [step?] at hstep
    split at hstep
    · cases hstep
      exact ⟨.goes rfl rfl rfl ha, hh, hn⟩
    · cases hstep
  | judged e outcome =>
    simp only [step?] at hstep
    split at hstep
    · rename_i next hnext
      cases hstep
      exact ⟨.goes rfl rfl rfl ⟨_, _, _, hn.limit, hnext⟩, hh, hn⟩
    · cases hstep
      exact ⟨.breaks, hh, hn.withStats _⟩
  | storing e next outcome =>
    obtain ⟨policy, draw', now, -, hnext⟩ := ha
    have hheld : h.store.HoldsClaim e := hheld rfl
    have hupdate := hheld.update_eq hh.unfailing (DispatchOutcome.canMoveTo_nextEntry hnext) q.now
    simp only [step?, store, hh.updates, hh.time, hupdate] at hstep
    cases hstep
    exact ⟨.stores hupdate, hh.with_store rfl (Store.ids_replace _ _), hn⟩
  | booking e verdict =>
    cases hstep
    exact ⟨.ends, hh, (hn.withStats _).withStats _⟩

/-- The attempt of a quiet handler begins. -/
theorem Attempt.isQuiet_begin_ (hn : n.DrawsOn q) (e : Entry) :
    (begin_ n e).1.open? = some (begin_ n e).1 ∧ (begin_ n e).1.IsQuiet q.limit := by
  unfold begin_
  simp only
  split
  · rename_i activity hprepare
    exact ⟨rfl, hn.quiet.prepare hprepare⟩
  · exact ⟨rfl, trivial⟩

namespace ProcessStage

variable {stage : ProcessStage} {r : ProcessStage ⊕ CallResult}

/-- A batch does not go on only while its handler sleeps. -/
theorem isAsleep_of_step? (hstep : stage.step? draw h n = none) : ∃ a ∈ stage.attempt?, a.IsAsleep h := by
  cases stage with
  | claiming =>
    simp only [step?] at hstep
    split at hstep
    · cases hstep
    · split at hstep <;> cases hstep
  | between count rest => cases rest <;> cases hstep
  | attempting count a rest =>
    obtain ⟨t, ht, hlate⟩ := Attempt.isAsleep_of_step? (Option.map_eq_none_iff.mp hstep)
    cases a with
    | sleeping e wakeAt effects result => exact ⟨_, rfl, t, ht, hlate⟩
    | _ => cases ht

theorem isKept_claiming (q : Quota) (s : Store) : claiming.IsKept q s :=
  ⟨List.forall_mem_nil _, .nil, fun _ ha => (by cases ha), trivial⟩

/-- The claims of a new batch are stored as they were answered. -/
theorem isKept_claimFirst (hh : h.IsCalm q) (claimer : NodeId) (hcount : 0 < count) :
    (between (Store.claimFirst claimer q.owner q.now count h.store.live).1.length
      (Store.claimFirst claimer q.owner q.now count h.store.live).1).IsKept q
      { h.store with live := (Store.claimFirst claimer q.owner q.now count h.store.live).2 } := by
  have htakes := Store.takesFirstDue_claimFirst hh.ascending count claimer q.owner q.now
  refine ⟨fun e he => ⟨htakes.stored e he, ?_⟩, ?_, fun _ ha => (by cases ha), ?_⟩
  · have hclaimed : e ∈ (Store.claimFirst claimer q.owner q.now count h.store.live).1 := he
    rw [htakes.first] at hclaimed
    obtain ⟨before, -, rfl⟩ := List.mem_map.mp hclaimed
    rfl
  · exact EntryId.nodup_of_pairwise_lt htakes.ascending
  · cases hclaimed : (Store.claimFirst claimer q.owner q.now count h.store.live).1 with
    | cons e es => trivial
    | nil =>
      -- nothing was claimed, although there was room for an entry
      have hnothing := q.ids_claimFirst h.store claimer count
      rw [hclaimed, List.map_nil, eq_comm, List.map_eq_nil_iff, List.take_eq_nil_iff] at hnothing
      have hdue := hnothing.resolve_left (Nat.ne_of_gt hcount)
      refine ⟨rfl, ?_⟩
      rw [Quota.due_claimFirst, hdue, List.drop_nil]

theorem IsKept.goes (hkept : (attempting count a rest).IsKept q s) (before : a.open? = some a)
    (after : a'.open? = some a') (entry : a'.entry = a.entry) (quiet : a'.IsQuiet q.limit) :
    (attempting count a' rest).IsKept q s := by
  have hinHand : (attempting count a' rest).inHand = (attempting count a rest).inHand := by
    simp only [inHand, attempt?, before, after, Option.map_some, entry, waiting]
  refine ⟨hinHand ▸ hkept.held, hinHand ▸ hkept.distinct, fun b hb => ?_, hkept.counted⟩
  cases after.symm.trans hb
  exact quiet

/-- After the record of an attempt is stored, the claims that wait are stored as before. -/
theorem IsKept.stores {outcome : DispatchOutcome} {verdict : Verdict}
    (hkept : (attempting count (.storing e next outcome) rest).IsKept q s) {e' : Entry} (hid : e'.id = e.id) :
    (attempting count (.booking e verdict) rest).IsKept q (s.replace e') := by
  have hdistinct : (e.id :: rest.map Entry.id).Nodup := hkept.distinct
  obtain ⟨hnew, hrest⟩ := List.nodup_cons.mp hdistinct
  refine ⟨fun f hf => ?_, hrest, fun _ ha => (by cases ha), hkept.counted⟩
  have hf : f ∈ rest := hf
  have hheld := hkept.held f (List.mem_cons_of_mem _ hf)
  have hne : f.id ≠ e'.id := fun heq => hnew (hid ▸ heq ▸ List.mem_map_of_mem hf)
  exact ⟨(Store.liveEntry?_replace_of_ne s hne).trans hheld.stored, hheld.claimed⟩

theorem IsKept.ends {verdict : Verdict} (hkept : (attempting count (.booking e verdict) rest).IsKept q s) :
    (between count rest).IsKept q s := by
  refine ⟨hkept.held, hkept.distinct, fun _ ha => (by cases ha), ?_⟩
  have hpos : 0 < count := hkept.counted
  cases count with
  | zero => cases hpos
  | succ count => trivial

/-- Every step of a call is a step of the quota. -/
theorem drains_step? (hh : h.IsCalm q) (hn : n.DrawsOn q) (hkept : stage.IsKept q h.store)
    (hstep : stage.step? draw h n = some (r, h', n')) (t : BusTask) :
    q.Step t h.store (some stage) r.getRight?.toList
      (AttemptEvent.ofStep h t stage.attempt? (r.getLeft?.bind attempt?)) h'.store r.getLeft? ∧
      h'.IsCalm q ∧ n'.DrawsOn q ∧ ∀ stage' ∈ r.getLeft?, stage'.IsKept q h'.store := by
  cases stage with
  | claiming =>
    simp only [step?, hh.claims, ClaimManager.claim, Store.claim_of_unfailing hh.unfailing,
      ClaimManager.report, hn.owner, hh.time] at hstep
    cases hstep
    refine ⟨.claims h.store _ _, hh.with_store rfl (Store.ids_claimFirst ..), hn.withStats _,
      fun stage' hr => ?_⟩
    cases hr
    exact isKept_claimFirst hh _ hn.room
  | between count rest =>
    cases rest with
    | nil =>
      cases hstep
      refine ⟨.answers ?_, hh, hn, fun _ hr => (by cases hr)⟩
      rintro rfl
      exact hkept.counted.2
    | cons e rest =>
      have hbegun : some (.inl (attempting count (Attempt.begin_ n e).1 rest), h, (Attempt.begin_ n e).2) =
          some (r, h', n') := hstep
      cases hbegun
      obtain ⟨hopen, hquiet⟩ := Attempt.isQuiet_begin_ hn e
      have hentry := Attempt.entry_begin_ n e
      have hturn : q.Step t h.store (some (between count ((Attempt.begin_ n e).1.entry :: rest))) []
          [.begun t (Attempt.begin_ n e).1.entry] h.store
          (some (attempting count (Attempt.begin_ n e).1 rest)) :=
        .begins h.store hopen
      have hinHand : (attempting count (Attempt.begin_ n e).1 rest).inHand = e :: rest := by
        simp only [inHand, attempt?, hopen, Option.map_some, hentry, waiting, Option.toList,
          List.singleton_append]
      rw [Attempt.snd_begin_]
      refine ⟨?_, hh, hn.withStats _, fun stage' hr => ?_⟩
      · rw [hentry] at hturn
        simpa [AttemptEvent.ofStep, attempt?, hopen, hentry] using hturn
      · cases hr
        refine ⟨hinHand ▸ hkept.held, hinHand ▸ hkept.distinct, fun a ha => ?_, ?_⟩
        · cases hopen.symm.trans ha
          exact hquiet
        · cases count with
          | zero => cases hkept.counted.1
          | succ count => exact Nat.succ_pos count
  | attempting count a rest =>
    obtain ⟨⟨p, h₁, n₁⟩, hattempt, heq⟩ := Option.map_eq_some_iff.mp hstep
    have hquiet : a.IsQuiet q.limit := by
      cases a with
      | booking => trivial
      | _ => exact hkept.attempt _ rfl
    have hheld (hopen : a.open? = some a) : h.store.HoldsClaim a.entry :=
      hkept.held _ (by simp [inHand, attempt?, hopen])
    obtain ⟨hgoes, hh', hn'⟩ := Attempt.quietStep_step? hh hn hquiet hheld hattempt
    generalize hstore : h₁.store = s₁ at hgoes
    cases hgoes with
    | @goes _ a' before after entry quiet =>
      cases heq
      have hweight : a'.weight < a.weight :=
        Attempt.weight_step? hattempt ⟨n.registry, n.config.retryPolicy, q.now, q.now⟩
      have htold : AttemptEvent.ofStep h t a.open? a'.open? = [] := by
        rw [before, after, AttemptEvent.ofStep_some]
      refine ⟨?_, hh', hn', fun stage' hr => ?_⟩
      · rw [hstore]
        exact htold ▸ .goes h.store before after entry hweight
      · cases hr
        exact hstore ▸ hkept.goes before after entry quiet
    | @stores e next outcome verdict update =>
      cases heq
      have hheld : h.store.HoldsClaim e := hheld rfl
      obtain ⟨older, younger, hlive, hreplace⟩ :=
        hheld.exists_replace (EntryId.nodup_of_pairwise_lt hh.ascending)
      obtain ⟨policy, draw', now, hlimit, hnext⟩ := hquiet
      have htold : AttemptEvent.ofStep h t (some (.storing e next outcome)) none =
          [.stored t e next (.ok ())] := by
        simp only [AttemptEvent.ofStep, hh.updates, hh.time, update, if_true]
      refine ⟨?_, hh', hn', fun stage' hr => ?_⟩
      · rw [hstore, hreplace (Store.resolved e next q.now) rfl]
        have hspends (havailable : next.state = .available) :=
          Quota.share_resolved hlimit hnext havailable q.now
        exact htold ▸ .stores hlive hheld.claimed hspends
      · cases hr
        exact hstore ▸ hkept.stores rfl
    | ends =>
      cases heq
      refine ⟨?_, hh', hn', fun stage' hr => ?_⟩
      · rw [hstore]
        exact .ends h.store
      · cases hr
        exact hstore ▸ hkept.ends
    | breaks =>
      cases heq
      refine ⟨?_, hh', hn', fun _ hr => (by cases hr)⟩
      rw [hstore]
      exact .breaks h.store

end ProcessStage

end DurableQueue
