import DurableQueue.Proofs.Store.Reaping

/-!
No entry is ever stuck.

Once every claim is older than a reaper's cutoff and every entry is due, a reap and a claim reach
every entry that is not in a terminal state, whatever happened before (`everything_recovered`): no
combination of state, owner and times escapes both the test of the reaper and the test of the claim.
-/

namespace DurableQueue

/-- An entry as a reap of every claim leaves it. -/
def Entry.revived (e : Entry) (p : ReapPolicy) (now : Timestamp) : Entry :=
  if e.state = .inProcessing then e.reaped p now else e

namespace Entry

variable {e : Entry} {p : ReapPolicy} {now cutoff : Timestamp}

@[simp] theorem id_revived (e : Entry) (p : ReapPolicy) (now : Timestamp) :
    (e.revived p now).id = e.id := by
  unfold revived
  split <;> rfl

theorem isStaleClaim_of_lt (h : e.updatedTime < cutoff) :
    e.isStaleClaim cutoff = decide (e.state = .inProcessing) := by
  simp [isStaleClaim, h]

/-- What is neither terminal nor taken out for good can be claimed after the reap. -/
theorem isClaimableAt_revived_iff (h : e.nextAvailableTime ≤ now) :
    (e.revived p now).isClaimableAt now = true ↔
      (e.state = .available ∨ e.state = .inProcessing) ∧ (e.revived p now).state ≠ .reaped := by
  rw [isClaimableAt_iff]
  by_cases hs : e.state = .inProcessing
  · rcases p.stateAfter_eq e.errorCount with hstate | hstate <;>
      simp [revived, reaped, hs, hstate]
  · cases hstate : e.state <;> simp_all [revived]

/-- Unless it is claimable after the reap, an entry is in a terminal state then. -/
theorem isTerminal_revived (h : e.nextAvailableTime ≤ now)
    (hnot : (e.revived p now).isClaimableAt now = false) :
    (e.revived p now).state.isTerminal = true := by
  rw [← Bool.not_eq_true, isClaimableAt_revived_iff h] at hnot
  by_cases hreaped : (e.revived p now).state = .reaped
  · rw [hreaped]
    rfl
  · have hcirculates : ¬ (e.state = .available ∨ e.state = .inProcessing) := fun hs =>
      hnot ⟨hs, hreaped⟩
    have hsame : e.revived p now = e := if_neg fun hs => hcirculates (.inr hs)
    rw [hsame]
    cases hstate : e.state <;> simp_all [EntryState.isTerminal]

end Entry

theorem ReapPolicy.stateAfter_of_spare {p : ReapPolicy} {count : UInt32} (hoff : p.penalize = false)
    (hspare : count < p.maxFailureRetries) : p.stateAfter count = .available := by
  simp [stateAfter, countAfter, hoff, hspare]

namespace Store

variable {s : Store} {policy : ReapPolicy} {t cutoff : Timestamp} {node : NodeId}
  {owner : Option NodeId} {count : Nat}

/-- A claim that asks for at least as many entries as there are takes all wanted ones. -/
theorem claim_eq_of_length_le (h : s.IsWellFormed) (hleft : s.failuresLeft = 0)
    (hcount : s.live.length ≤ count) (node : NodeId) (owner : Option NodeId) (t : Timestamp) :
    s.apply (.claim count node owner) t =
      (.ok (.entries ((s.live.filter (isWanted owner t)).map (·.claimedBy node t))),
        { s with live := s.live.map fun e =>
            if isWanted owner t e then e.claimedBy node t else e }) := by
  have htake : (s.live.filter (isWanted owner t)).take count = s.live.filter (isWanted owner t) :=
    List.take_of_length_le (Nat.le_trans (List.length_filter_le _ _) hcount)
  have hlive : (s.live.map fun e => if e ∈ s.live.filter (isWanted owner t)
      then e.claimedBy node t else e) =
      s.live.map fun e => if isWanted owner t e then e.claimedBy node t else e :=
    List.map_congr_left fun e he => by simp [List.mem_filter, he]
  simp only [apply, claim, guarded, hleft, Outcome.map, claimFirst_fst,
    claimFirst_snd _ _ _ _ _ h.nodup_live, htake, hlive]

/-- When every claim is old, a reap takes back all of them. -/
theorem reap_eq_of_old (hleft : s.failuresLeft = 0) (hcutoff : policy.cutoff t = .ok cutoff)
    (hold : ∀ e ∈ s.live, e.updatedTime < cutoff) :
    s.apply (.reap policy) t =
      (.ok (.entries ((s.live.filter fun e => e.state = .inProcessing).map (·.reaped policy t))),
        { s with live := s.live.map (·.revived policy t) }) := by
  have hstale : ∀ e ∈ s.live, e.isStaleClaim cutoff = decide (e.state = .inProcessing) := fun e he =>
    Entry.isStaleClaim_of_lt (hold e he)
  have hlive : (s.live.map fun e => if e.isStaleClaim cutoff then e.reaped policy t else e) =
      s.live.map (·.revived policy t) :=
    List.map_congr_left fun e he => by simp [hstale e he, Entry.revived]
  rw [reap_eq hleft hcutoff, List.filter_congr hstale, changeWhere, hlive]

/-- Injected failures are used up by as many reaps, and nothing else changes meanwhile. -/
theorem run_reap_of_injected (s : Store) (policy : ReapPolicy) (t : Timestamp) :
    s.run (List.replicate s.failuresLeft (.reap policy, t)) =
      (List.replicate s.failuresLeft (.error .injected), { s with failuresLeft := 0 }) := by
  obtain ⟨lastId, live, history, left⟩ := s
  induction left with
  | zero => rfl
  | succ n ih =>
    have hstep : apply ⟨lastId, live, history, n + 1⟩ (.reap policy) t =
        (.error .injected, ⟨lastId, live, history, n⟩) :=
      reap_of_injected (s := ⟨lastId, live, history, n + 1⟩) (Nat.succ_ne_zero n) policy t
    simp only [List.replicate_succ, run, hstep] at ih ⊢
    rw [ih]

/-- What a reap and a claim by a node do with a store, when every claim is old and every entry due. -/
structure RecoversAll (s : Store) (policy : ReapPolicy) (t : Timestamp) (count : Nat) (node : NodeId)
    (reaped claimed : List Entry) (s' s'' : Store) : Prop where
  reap : s.apply (.reap policy) t = (.ok (.entries reaped), s')
  claim : s'.apply (.claim count node none) t = (.ok (.entries claimed), s'')
  /-- The reap takes back every claim. -/
  orphans : List.Forall₂ (Entry.TakenBack policy t)
    (s.live.filter fun e => e.state = .inProcessing) reaped
  /-- The claim takes every entry that waited or was claimed, except those that the reap took out
  for good. -/
  circulating : claimed.map Entry.id =
    (s.live.filter fun e => (e.state = .available ∨ e.state = .inProcessing) ∧
      ¬ ∃ f ∈ reaped, f.id = e.id ∧ f.state = .reaped).map Entry.id
  ascending : (claimed.map Entry.id).Pairwise (· < ·)
  held : ∀ e ∈ claimed, e ∈ s''.live ∧ e.isHeldBy node = true
  /-- Nothing is left over. -/
  settled : ∀ e ∈ s''.live, e.state.isTerminal = true ∨ e ∈ claimed
  numbers : s''.live.map Entry.id = s.live.map Entry.id
  /-- Without a penalty no entry is taken out that had attempts to spare. -/
  spared : policy.penalize = false →
    (∀ e ∈ s.live, e.state.isTerminal = false → e.errorCount < policy.maxFailureRetries) →
    ∀ f ∈ reaped, f.state ≠ .reaped

/-- Who was taken out for good can be read off the answer of the reap. -/
theorem exists_reaped_iff (h : s.IsWellFormed) {e : Entry} (he : e ∈ s.live) :
    (∃ f ∈ (s.live.filter fun e => e.state = .inProcessing).map (·.reaped policy t),
      f.id = e.id ∧ f.state = .reaped) ↔ e.state ≠ .reaped ∧ (e.revived policy t).state = .reaped := by
  constructor
  · rintro ⟨f, hf, hid, hstate⟩
    obtain ⟨d, hd, rfl⟩ := List.mem_map.mp hf
    obtain ⟨hlive, hs⟩ := List.mem_filter.mp hd
    have heq : d = e := h.eq_of_id_eq (List.mem_append_left _ hlive) (List.mem_append_left _ he) hid
    subst heq
    have hs : d.state = .inProcessing := of_decide_eq_true hs
    exact ⟨by simp [hs], by simpa [Entry.revived, hs] using hstate⟩
  · rintro ⟨hnot, hstate⟩
    by_cases hs : e.state = .inProcessing
    · have hfilter : e ∈ s.live.filter fun e => e.state = .inProcessing :=
        List.mem_filter.mpr ⟨he, decide_eq_true hs⟩
      exact ⟨_, List.mem_map_of_mem hfilter, rfl, by simpa [Entry.revived, hs] using hstate⟩
    · exact absurd (by simpa [Entry.revived, hs] using hstate) hnot

theorem recoversAll (h : s.IsWellFormed) (hleft : s.failuresLeft = 0)
    (hcutoff : policy.cutoff t = .ok cutoff) (hdue : ∀ e ∈ s.live, e.nextAvailableTime ≤ t)
    (hold : ∀ e ∈ s.live, e.updatedTime < cutoff) (hcount : s.live.length ≤ count) (node : NodeId) :
    ∃ reaped claimed s' s'', s.RecoversAll policy t count node reaped claimed s' s'' := by
  have hreap := reap_eq_of_old hleft hcutoff hold
  have hids : (s.live.map (·.revived policy t)).map Entry.id = s.live.map Entry.id :=
    ids_map_of_id_eq s.live fun e _ => Entry.id_revived e policy t
  have hrevived : IsWellFormed { s with live := s.live.map (·.revived policy t) } := h.of_ids hids rfl rfl
  have hclaim := claim_eq_of_length_le hrevived hleft (by simpa using hcount) node none t
  -- the claim looks at the entries as the reap left them
  have hwanted : ∀ e ∈ s.live, isWanted none t (e.revived policy t) = true ↔
      (e.state = .available ∨ e.state = .inProcessing) ∧ (e.revived policy t).state ≠ .reaped := by
    intro e he
    rw [isWanted_iff, Entry.isClaimableAt_revived_iff (hdue e he)]
    simp
  refine ⟨_, _, _, _, hreap, hclaim, ?_, ?_, ?_, ?_, ?_, ?_, ?_⟩
  · rw [List.forall₂_map_right_iff]
    exact List.forall₂_same.mpr fun e _ => e.takenBack_reaped policy t
  · rw [List.map_map, List.filter_map, List.map_map]
    have hsame : s.live.filter (isWanted none t ∘ (·.revived policy t)) =
        s.live.filter fun e => (e.state = .available ∨ e.state = .inProcessing) ∧
          ¬ ∃ f ∈ (s.live.filter fun e => e.state = .inProcessing).map (·.reaped policy t),
            f.id = e.id ∧ f.state = .reaped := by
      refine List.filter_congr fun e he => ?_
      rw [Bool.eq_iff_iff, Function.comp_apply, hwanted e he, decide_eq_true_iff,
        exists_reaped_iff h he]
      refine and_congr_right fun hs => not_congr (and_iff_right ?_).symm
      rcases hs with hs | hs <;> simp [hs]
    rw [hsame]
    exact List.map_congr_left fun e _ => Entry.id_revived e policy t
  · rw [List.map_map]
    exact hrevived.ascending.sublist (List.filter_sublist.map Entry.id)
  · intro f hf
    obtain ⟨e, he, rfl⟩ := List.mem_map.mp hf
    obtain ⟨hlive, hwanted⟩ := List.mem_filter.mp he
    refine ⟨List.mem_map.mpr ⟨e, hlive, if_pos hwanted⟩, ?_⟩
    simp [Entry.isHeldBy, Entry.claimedBy]
  · intro f hf
    obtain ⟨d, hd, rfl⟩ := List.mem_map.mp hf
    obtain ⟨e, he, rfl⟩ := List.mem_map.mp hd
    cases hw : isWanted none t (e.revived policy t) with
    | true =>
      refine .inr ?_
      rw [if_pos rfl]
      exact List.mem_map_of_mem (List.mem_filter.mpr ⟨hd, hw⟩)
    | false =>
      refine .inl ?_
      rw [if_neg Bool.false_ne_true]
      refine Entry.isTerminal_revived (hdue e he) ?_
      rw [← Bool.not_eq_true, isWanted_iff] at hw
      simpa using hw
  · refine Eq.trans (ids_map_of_id_eq _ fun e _ => ?_) hids
    split <;> rfl
  · intro hoff hspare f hf
    obtain ⟨e, he, rfl⟩ := List.mem_map.mp hf
    obtain ⟨hlive, hs⟩ := List.mem_filter.mp he
    have hcount := hspare e hlive (by rw [of_decide_eq_true hs]; rfl)
    simp [Entry.reaped, ReapPolicy.stateAfter_of_spare hoff hcount]

/-- Whatever happened to a store: at a time when every entry is due and every claim is older than
the cutoff, a reap followed by a claim of a node that asks for enough entries hands out, in the order
of their numbers, all entries that are not in a terminal state, but for those whose attempts the reap
found spent, and afterwards every live entry is in a terminal state or claimed by the node. Injected
failures only delay this: they make as many reaps fail, and nothing else. -/
theorem everything_recovered (ops : List (StoreOp × Timestamp)) (policy : ReapPolicy)
    (t cutoff : Timestamp) (count : Nat) (node : NodeId) (hcutoff : policy.cutoff t = .ok cutoff)
    (hdue : ∀ e ∈ (empty.run ops).2.live, e.nextAvailableTime ≤ t)
    (hold : ∀ e ∈ (empty.run ops).2.live, e.updatedTime < cutoff)
    (hcount : (empty.run ops).2.live.length ≤ count) :
    let s := (empty.run ops).2
    s.run (List.replicate s.failuresLeft (.reap policy, t)) =
        (List.replicate s.failuresLeft (.error .injected), { s with failuresLeft := 0 }) ∧
      ∃ reaped claimed s' s'',
        RecoversAll { s with failuresLeft := 0 } policy t count node reaped claimed s' s'' := by
  intro s
  have hwf : IsWellFormed { s with failuresLeft := 0 } :=
    (isWellFormed_run isWellFormed_empty ops).of_ids rfl rfl rfl
  exact ⟨run_reap_of_injected s policy t, recoversAll hwf rfl hcutoff hdue hold hcount node⟩

/-- One entry was claimed by a node that is gone, one is tried again, one is done, and the next
operation will fail. -/
def strandedRun : List (StoreOp × Timestamp) :=
  let order : NewEntry := ⟨⟨"order", []⟩, ⟨"node"⟩, .none⟩
  let claim : Entry := { firstClaim with id := ⟨2⟩ }
  [(.append order, .epoch), (.append order, .epoch), (.append order, .epoch),
   (.claim 3 ⟨"node"⟩ none, .epoch),
   (.update claim { claim with state := .available, errorCount := 1 }, .epoch),
   (.update { claim with id := ⟨3⟩ } { claim with state := .processed }, .epoch), (.failNext 1, .epoch)]

theorem everything_recovered_strandedRun :
    (∃ cutoff, halfMinute.cutoff oneMinute = .ok cutoff ∧
      ∀ e ∈ (empty.run strandedRun).2.live, e.updatedTime < cutoff) ∧
    (∀ e ∈ (empty.run strandedRun).2.live, e.nextAvailableTime ≤ oneMinute) ∧
    ((empty.run strandedRun).2.live.map Entry.state) = [.inProcessing, .available, .processed] ∧
    ∃ reaped claimed s' s'',
      RecoversAll { (empty.run strandedRun).2 with failuresLeft := 0 } halfMinute oneMinute 3 ⟨"other"⟩
        reaped claimed s' s'' ∧ claimed.map Entry.id = [⟨1⟩, ⟨2⟩] := by
  have hcutoff : halfMinute.cutoff oneMinute = .ok ⟨30, 0, by decide, by decide, by decide⟩ := rfl
  have hold : ∀ e ∈ (empty.run strandedRun).2.live,
      e.updatedTime < ⟨30, 0, by decide, by decide, by decide⟩ := by decide
  have hdue : ∀ e ∈ (empty.run strandedRun).2.live, e.nextAvailableTime ≤ oneMinute := by decide
  refine ⟨⟨_, hcutoff, hold⟩, hdue, rfl, ?_⟩
  obtain ⟨-, reaped, claimed, s', s'', hall⟩ :=
    everything_recovered strandedRun halfMinute oneMinute _ 3 ⟨"other"⟩ hcutoff hdue hold (by decide)
  refine ⟨reaped, claimed, s', s'', hall, ?_⟩
  have hstore : s' = (apply { (empty.run strandedRun).2 with failuresLeft := 0 }
    (.reap halfMinute) oneMinute).2 := (congrArg Prod.snd hall.reap).symm
  have hclaimed := congrArg Prod.fst hall.claim
  rw [hstore] at hclaimed
  injection hclaimed with hclaimed
  injection hclaimed with hclaimed
  rw [← hclaimed]
  decide

end Store

end DurableQueue
