import DurableQueue.Proofs.Dispatch.BatchOrder
import DurableQueue.Proofs.Store.Claiming
import Mathlib.Data.Prod.Lex

/-!
Batches that are processed one after the other while the clock stands still.

A `Quota` says which entries are due and how often each of them may still be dispatched. `Quota.Step` lists
what a step makes of the store and of the batch in hand. Every attempt takes one from what is left of the
quota and no step adds to it (`Quota.Step.left_le`), and steps between two attempts come to an end
(`Quota.Step.measure_lt`), so after finitely many steps there is nothing to claim.
-/

namespace DurableQueue

/-- Whether an attempt of the batch has begun. -/
def ProcessStage.hasBegun : ProcessStage → Bool
  | claiming => false
  | between count rest => rest.length < count
  | attempting .. => true

/-- Where a batch is in the course of its call. Between two attempts this is the less the sooner the next one
begins. -/
def ProcessStage.rank : ProcessStage → Nat
  | claiming => 2
  | between (_ + 1) [] => 4
  | between _ _ => 1
  | attempting _ a _ => 5 + a.weight

/-- Which entries are due, and how many failures end an entry. -/
structure Quota where
  owner : Option NodeId
  now : Timestamp
  limit : UInt32

namespace Quota

/-- The due entries of a store, oldest first. -/
def due (q : Quota) (s : Store) : List Entry := s.live.filter fun e => e.IsDue q.owner q.now

/-- How often an entry may still be dispatched: as often as it may fail, and once if it has no failure to
spare. -/
def share (q : Quota) (e : Entry) : Nat := max 1 (q.limit.toNat - e.errorCount.toNat)

def total (q : Quota) (es : List Entry) : Nat := (es.map q.share).sum

/-- How many attempts may still begin. An attempt that is not stored may be followed by those that its entry
has left. -/
def left (q : Quota) (s : Store) (stage? : Option ProcessStage) : Nat :=
  q.total (q.due s) + q.total (stage?.elim [] ProcessStage.waiting) +
    (stage?.bind ProcessStage.attempt?).elim 0 fun a => q.share a.entry - 1

/-- What is left, and how far it is to the next attempt if nothing more is left. -/
def measure (q : Quota) (s : Store) (stage? : Option ProcessStage) : Lex (Nat × Nat) :=
  toLex (q.left s stage?, stage?.elim 3 ProcessStage.rank)

/-- No entry is due, and none is in hand that is not stored. -/
structure IsSpent (q : Quota) (s : Store) (stage? : Option ProcessStage) : Prop where
  due : q.due s = []
  waiting : stage?.elim [] ProcessStage.waiting = []
  attempt : stage?.bind ProcessStage.attempt? = none

/-- What a step makes of a store and of the batch in hand: what it answers and what it tells of attempts. -/
inductive Step (q : Quota) (t : BusTask) : Store → Option ProcessStage → List CallResult →
    List AttemptEvent → Store → Option ProcessStage → Prop where
  | asks (s : Store) : Step q t s none [] [] s (some .claiming)
  | claims (s : Store) (claimer : NodeId) (count : Nat) :
    Step q t s (some .claiming) [] []
      { s with live := (Store.claimFirst claimer q.owner q.now count s.live).2 }
      (some (.between (Store.claimFirst claimer q.owner q.now count s.live).1.length
        (Store.claimFirst claimer q.owner q.now count s.live).1))
  | begins (s : Store) {count : Nat} {a : Attempt} {rest : List Entry} (unstored : a.open? = some a) :
    Step q t s (some (.between count (a.entry :: rest))) [] [.begun t a.entry] s
      (some (.attempting count a rest))
  | goes (s : Store) {count : Nat} {a a' : Attempt} {rest : List Entry} (before : a.open? = some a)
    (after : a'.open? = some a') (entry : a'.entry = a.entry) (weight : a'.weight < a.weight) :
    Step q t s (some (.attempting count a rest)) [] [] s (some (.attempting count a' rest))
  /-- The record of a claim is stored. It is due again only with one more failure. -/
  | stores {s : Store} {count : Nat} {e next : Entry} {outcome : DispatchOutcome} {verdict : Verdict}
    {older younger rest : List Entry} (live : s.live = older ++ e :: younger)
    (claimed : e.state = .inProcessing)
    (spends : next.state = .available → q.share (Store.resolved e next q.now) + 1 ≤ q.share e) :
    Step q t s (some (.attempting count (.storing e next outcome) rest)) [] [.stored t e next (.ok ())]
      { s with live := older ++ Store.resolved e next q.now :: younger }
      (some (.attempting count (.booking e verdict) rest))
  | ends (s : Store) {count : Nat} {e : Entry} {verdict : Verdict} {rest : List Entry} :
    Step q t s (some (.attempting count (.booking e verdict) rest)) [] [] s (some (.between count rest))
  | breaks (s : Store) {count : Nat} {a : Attempt} {rest : List Entry} :
    Step q t s (some (.attempting count a rest)) [.panicked] [] s none
  | answers {s : Store} {count : Nat} (drained : count = 0 → q.due s = []) :
    Step q t s (some (.between count [])) [.count count] [] s none

/-- The numbers of the entries whose attempts began. -/
def begun (xs : List AttemptEvent) : List EntryId := (xs.filter AttemptEvent.isBegun).map (·.claim.id)

/-- No attempt broke down, and all that were stored succeeded. -/
structure AllSucceed (rs : List CallResult) (xs : List AttemptEvent) : Prop where
  unbroken : .panicked ∉ rs
  processed : ∀ x ∈ xs, x.isStored = true → x.isSuccess = true

/-- The entry of a number is stored as processed, or its attempt is in progress. -/
def IsDispatched (s : Store) (stage? : Option ProcessStage) (id : EntryId) : Prop :=
  (∃ e ∈ s.live, e.id = id ∧ e.state = .processed) ∨ ∃ a ∈ stage?.bind ProcessStage.attempt?, a.entry.id = id

variable {q : Quota} {t : BusTask} {s s' : Store} {stage? stage?' : Option ProcessStage}
  {rs rs' : List CallResult} {xs xs' : List AttemptEvent} {e e' next : Entry} {older younger : List Entry}

theorem IsDispatched.stored {id : EntryId} (h : IsDispatched s stage? id)
    (hnone : stage?.bind ProcessStage.attempt? = none) : ∃ e ∈ s.live, e.id = id ∧ e.state = .processed := by
  rcases h with hstored | ⟨a, ha, -⟩
  · exact hstored
  · rw [hnone] at ha
    cases ha

theorem AllSucceed.append (h : AllSucceed (rs ++ rs') (xs ++ xs')) :
    AllSucceed rs xs ∧ AllSucceed rs' xs' := by
  obtain ⟨hunbroken, hprocessed⟩ := h
  rw [List.mem_append, not_or] at hunbroken
  rw [List.forall_mem_append] at hprocessed
  exact ⟨⟨hunbroken.1, hprocessed.1⟩, ⟨hunbroken.2, hprocessed.2⟩⟩

theorem AllSucceed.state_of_stored {answer : Except StoreError Unit}
    (h : AllSucceed rs [.stored t e next answer]) : next.state = .processed :=
  beq_iff_eq.mp (h.processed _ List.mem_cons_self rfl)

theorem share_pos (q : Quota) (e : Entry) : 0 < q.share e := Nat.le_max_left 1 _

theorem total_cons (q : Quota) (e : Entry) (es : List Entry) :
    q.total (e :: es) = q.share e + q.total es := by
  rw [total, List.map_cons, List.sum_cons, total]

theorem total_append (q : Quota) (es es' : List Entry) :
    q.total (es ++ es') = q.total es + q.total es' := by
  rw [total, List.map_append, List.sum_append, total, total]

theorem due_eq_filter_isWanted (q : Quota) (s : Store) :
    q.due s = s.live.filter (Store.isWanted q.owner q.now) := by
  rw [Store.isWanted_eq_decide_isDue]
  rfl

/-- After a claim the entries are due that it did not take. -/
theorem due_claimFirst (q : Quota) (s : Store) (claimer : NodeId) (count : Nat) :
    q.due { s with live := (Store.claimFirst claimer q.owner q.now count s.live).2 } =
      (q.due s).drop count := by
  simp only [due_eq_filter_isWanted]
  induction s.live generalizing count with
  | nil => simp [Store.claimFirst_nil]
  | cons e es ih =>
    by_cases hw : Store.isWanted q.owner q.now e = true
    · cases count with
      | zero => rw [Store.claimFirst_zero, List.drop_zero]
      | succ count =>
        have hpassed := Store.isWanted_claimedBy q.owner claimer q.now q.now e
        rw [Store.claimFirst_cons_of_isWanted hw, List.filter_cons_of_neg (Bool.eq_false_iff.mp hpassed),
          List.filter_cons_of_pos hw, List.drop_succ_cons, ih]
    · rw [Store.claimFirst_cons_of_not_isWanted (Bool.eq_false_iff.mpr hw), List.filter_cons_of_neg hw,
        List.filter_cons_of_neg hw, ih]

/-- A claim takes the first of the due entries. -/
theorem map_claimFirst {β : Type} (q : Quota) (s : Store) (claimer : NodeId) (count : Nat) {f : Entry → β}
    (hf : ∀ e, f (e.claimedBy claimer q.now) = f e) :
    (Store.claimFirst claimer q.owner q.now count s.live).1.map f = ((q.due s).take count).map f := by
  rw [Store.claimFirst_fst, ← due_eq_filter_isWanted, List.map_map]
  exact List.map_congr_left fun e _ => hf e

theorem ids_claimFirst (q : Quota) (s : Store) (claimer : NodeId) (count : Nat) :
    (Store.claimFirst claimer q.owner q.now count s.live).1.map Entry.id =
      ((q.due s).take count).map Entry.id :=
  q.map_claimFirst s claimer count fun _ => rfl

/-- A claim moves what it takes from the due entries into the batch. -/
theorem total_claimFirst (q : Quota) (s : Store) (claimer : NodeId) (count : Nat) :
    q.total (q.due { s with live := (Store.claimFirst claimer q.owner q.now count s.live).2 }) +
      q.total (Store.claimFirst claimer q.owner q.now count s.live).1 = q.total (q.due s) := by
  have htaken : q.total (Store.claimFirst claimer q.owner q.now count s.live).1 =
      q.total ((q.due s).take count) :=
    congrArg List.sum (q.map_claimFirst s claimer count fun _ => rfl)
  rw [due_claimFirst, htaken, Nat.add_comm, ← total_append, List.take_append_drop]

theorem not_isDue_of_state (h : e.state ≠ .available) : ¬e.IsDue q.owner q.now := fun hdue => h hdue.1

/-- The due entries before one entry, perhaps that entry, and those after it. -/
theorem due_eq_append (hlive : s.live = older ++ e :: younger) :
    q.due s = (older.filter fun e => e.IsDue q.owner q.now) ++
      (if e.IsDue q.owner q.now then [e] else []) ++ younger.filter fun e => e.IsDue q.owner q.now := by
  rw [due, hlive, List.filter_append, List.filter_cons]
  by_cases hdue : e.IsDue q.owner q.now <;> simp [hdue]

/-- A stored record that is not due leaves the due entries as they are. -/
theorem due_of_stores (hlive : s.live = older ++ e :: younger) (hclaimed : e.state = .inProcessing)
    (he' : ¬e'.IsDue q.owner q.now) : q.due { s with live := older ++ e' :: younger } = q.due s := by
  have he : ¬e.IsDue q.owner q.now := not_isDue_of_state (by simp [hclaimed])
  rw [due_eq_append hlive, due_eq_append rfl, if_neg he, if_neg he']

/-- A claim that is stored leaves less than its share. -/
theorem total_of_stores (hlive : s.live = older ++ e :: younger) (hclaimed : e.state = .inProcessing)
    (hspends : next.state = .available → q.share (Store.resolved e next q.now) + 1 ≤ q.share e) :
    q.total (q.due { s with live := older ++ Store.resolved e next q.now :: younger }) + 1 ≤
      q.total (q.due s) + q.share e := by
  by_cases hdue : (Store.resolved e next q.now).IsDue q.owner q.now
  · have hspent := hspends hdue.1
    have he : ¬e.IsDue q.owner q.now := not_isDue_of_state (by simp [hclaimed])
    rw [due_eq_append hlive, due_eq_append rfl, if_neg he, if_pos hdue]
    simp only [total_append, total_cons, List.append_nil]
    simp only [total, List.map_nil, List.sum_nil]
    omega
  · have hpos := q.share_pos e
    rw [due_of_stores hlive hclaimed hdue]
    omega

namespace Step

/-- An attempt that begins takes one from what is left, and nothing adds to it. -/
theorem left_le (h : q.Step t s stage? rs xs s' stage?') :
    xs.countP AttemptEvent.isBegun + q.left s' stage?' ≤ q.left s stage? := by
  cases h with
  | asks => exact Nat.le_of_eq (Nat.zero_add _)
  | claims claimer count =>
    have htotal := q.total_claimFirst s claimer count
    simp only [left, Option.elim, Option.bind, ProcessStage.waiting, ProcessStage.attempt?, List.countP_nil]
    simp only [total, List.map_nil, List.sum_nil] at *
    omega
  | @begins count a rest unstored =>
    have hpos := q.share_pos a.entry
    simp only [left, Option.elim, Option.bind, ProcessStage.waiting, ProcessStage.attempt?, unstored,
      total_cons, List.countP_singleton, AttemptEvent.isBegun, if_true]
    omega
  | goes before after entry =>
    simp only [left, Option.elim, Option.bind, ProcessStage.waiting, ProcessStage.attempt?, before, after,
      entry, List.countP_nil, Nat.zero_add, Nat.le_refl]
  | @stores count e next outcome verdict older younger rest live claimed spends =>
    have htotal := total_of_stores live claimed spends
    have hpos := q.share_pos e
    simp only [left, Option.elim, Option.bind, ProcessStage.waiting, ProcessStage.attempt?, Attempt.open?,
      Attempt.entry, List.countP_singleton, AttemptEvent.isBegun, Bool.false_eq_true, if_false]
    omega
  | ends => exact Nat.le_of_eq (Nat.zero_add _)
  | breaks =>
    simp only [left, Option.elim, Option.bind, ProcessStage.waiting, List.countP_nil]
    simp only [total, List.map_nil, List.sum_nil]
    omega
  | answers => exact Nat.le_of_eq (Nat.zero_add _)

/-- A step that does not begin an attempt comes nearer to the next one, or to the answer that nothing was
claimed. -/
theorem measure_lt (h : q.Step t s stage? rs xs s' stage?') (hrs : .count 0 ∉ rs) :
    q.measure s' stage?' < q.measure s stage? := by
  have hle := h.left_le
  have hstays (hrank : stage?'.elim 3 ProcessStage.rank < stage?.elim 3 ProcessStage.rank) :
      q.measure s' stage?' < q.measure s stage? := by
    have hleft : q.left s' stage?' ≤ q.left s stage? := Nat.le_trans (Nat.le_add_left _ _) hle
    rw [measure, measure, Prod.Lex.toLex_lt_toLex]
    exact (Nat.lt_or_eq_of_le hleft).imp_right fun heq => ⟨heq, hrank⟩
  cases h with
  | asks => exact hstays (Nat.lt_succ_self 2)
  | claims claimer count =>
    refine hstays ?_
    cases (Store.claimFirst claimer q.owner q.now count s.live).1 with
    | nil => exact Nat.lt_succ_self 1
    | cons e es => exact Nat.lt_succ_self 1
  | @begins count a rest unstored =>
    have hless : q.left s (some (.attempting count a rest)) <
        q.left s (some (.between count (a.entry :: rest))) := by
      rw [List.countP_singleton] at hle
      simp only [AttemptEvent.isBegun, if_true] at hle
      omega
    rw [measure, measure, Prod.Lex.toLex_lt_toLex]
    exact .inl hless
  | goes before after entry weight => exact hstays (Nat.add_lt_add_left weight 5)
  | stores => exact hstays (Nat.lt_succ_self 6)
  | @ends count e verdict rest =>
    refine hstays ?_
    cases rest with
    | nil => cases count <;> simp [ProcessStage.rank, Attempt.weight]
    | cons e rest => cases count <;> simp [ProcessStage.rank, Attempt.weight]
  | breaks => exact hstays (Nat.lt_of_lt_of_le (by decide) (Nat.le_add_right 5 _))
  | @answers count drained =>
    cases count with
    | zero => exact absurd List.mem_cons_self hrs
    | succ count => exact hstays (Nat.lt_succ_self 3)

/-- A call that does not answer that nothing was claimed has begun an attempt. -/
theorem answers_le (h : q.Step t s stage? rs xs s' stage?') :
    rs.countP (· ≠ .count 0) + (stage?'.any ProcessStage.hasBegun).toNat ≤
      xs.countP AttemptEvent.isBegun + (stage?.any ProcessStage.hasBegun).toNat := by
  cases h with
  | asks => exact Nat.le_refl _
  | claims => simp [ProcessStage.hasBegun]
  | begins => simp [ProcessStage.hasBegun, AttemptEvent.isBegun]
  | goes => simp [ProcessStage.hasBegun]
  | stores => simp [ProcessStage.hasBegun, AttemptEvent.isBegun]
  | ends => simp [ProcessStage.hasBegun, Bool.toNat_le]
  | breaks => simp [ProcessStage.hasBegun]
  | @answers count drained => cases count <;> simp [ProcessStage.hasBegun]

/-- When nothing is left, nothing comes after it. -/
theorem isSpent (h : q.Step t s stage? rs xs s' stage?') (hspent : q.IsSpent s stage?) :
    q.IsSpent s' stage?' := by
  obtain ⟨hdue, hwaiting, hattempt⟩ := hspent
  cases h with
  | claims claimer count =>
    refine ⟨?_, ?_, rfl⟩
    · rw [due_claimFirst, hdue, List.drop_nil]
    · have hclaimed := q.ids_claimFirst s claimer count
      rw [hdue, List.take_nil, List.map_nil, List.map_eq_nil_iff] at hclaimed
      exact hclaimed
  | begins => cases hwaiting
  | goes before => cases before.symm.trans hattempt
  | stores => cases hattempt
  | ends => exact ⟨hdue, hwaiting, rfl⟩
  | _ => exact ⟨hdue, rfl, rfl⟩

/-- A call that answers that nothing was claimed leaves nothing. -/
theorem isSpent_of_mem (h : q.Step t s stage? rs xs s' stage?') (hrs : .count 0 ∈ rs) :
    q.IsSpent s' stage?' := by
  cases h with
  | answers drained =>
    have heq := CallResult.count.inj (List.mem_singleton.mp hrs)
    exact ⟨drained heq.symm, rfl, rfl⟩
  | breaks => cases List.mem_singleton.mp hrs
  | _ => cases hrs

/-- As long as all attempts succeed, claims are dispatched in the order in which their entries were due. -/
theorem ids_eq (h : q.Step t s stage? rs xs s' stage?') (hall : AllSucceed rs xs) :
    begun xs ++ ((stage?'.elim [] ProcessStage.waiting).map Entry.id ++ (q.due s').map Entry.id) =
      (stage?.elim [] ProcessStage.waiting).map Entry.id ++ (q.due s).map Entry.id := by
  cases h with
  | claims claimer count =>
    rw [due_claimFirst]
    simp only [Option.elim, ProcessStage.waiting]
    rw [ids_claimFirst, ← List.map_append, List.take_append_drop]
    rfl
  | @stores count e next outcome verdict older younger rest live claimed spends =>
    have hdue : ¬(Store.resolved e next q.now).IsDue q.owner q.now :=
      not_isDue_of_state (by simp [Store.resolved, hall.state_of_stored])
    rw [due_of_stores live claimed hdue]
    rfl
  | breaks => exact absurd List.mem_cons_self hall.unbroken
  | _ => rfl

/-- An entry whose attempt succeeded stays so. -/
theorem isDispatched (h : q.Step t s stage? rs xs s' stage?') (hall : AllSucceed rs xs) {id : EntryId}
    (hid : IsDispatched s stage? id) : IsDispatched s' stage?' id := by
  cases h with
  | claims claimer count =>
    obtain ⟨e, he, hid, hstate⟩ := hid.stored rfl
    refine .inl ⟨e, Store.mem_claimFirst_snd he ?_, hid, hstate⟩
    simp [Store.isWanted, Entry.isClaimableAt, hstate]
  | begins => exact .inl (hid.stored rfl)
  | goes before after entry =>
    refine hid.imp_right ?_
    rintro ⟨a, ha, hid⟩
    cases before.symm.trans ha
    exact ⟨_, after, entry ▸ hid⟩
  | @stores count e next outcome verdict older younger rest live claimed =>
    refine .inl ?_
    rcases hid with ⟨f, hf, hid, hstate⟩ | ⟨a, ha, hid⟩
    · -- the claim is another entry, for it is in processing
      have hne : f ≠ e := by
        rintro rfl
        rw [claimed] at hstate
        cases hstate
      rw [live, List.mem_append, List.mem_cons] at hf
      refine ⟨f, ?_, hid, hstate⟩
      rw [List.mem_append, List.mem_cons]
      exact hf.imp_right fun hf => .inr (hf.resolve_left hne)
    · cases ha
      exact ⟨_, List.mem_append_right _ List.mem_cons_self, hid, hall.state_of_stored⟩
  | ends => exact .inl (hid.stored rfl)
  | breaks => exact absurd List.mem_cons_self hall.unbroken
  | _ => exact hid

theorem isDispatched_of_begun (h : q.Step t s stage? rs xs s' stage?') {id : EntryId}
    (hid : id ∈ begun xs) : IsDispatched s' stage?' id := by
  cases h with
  | begins unstored =>
    obtain rfl := List.mem_singleton.mp hid
    exact .inr ⟨_, unstored, rfl⟩
  | _ => cases hid

end Step

/-- Steps one after the other: all that they answer, and all that they tell of attempts. -/
inductive Run (q : Quota) : Store → Option ProcessStage → List CallResult → List AttemptEvent → Store →
    Option ProcessStage → Prop where
  | nil (s : Store) (stage? : Option ProcessStage) : Run q s stage? [] [] s stage?
  | cons {t : BusTask} {s s₁ s' : Store} {stage? stage₁? stage?' : Option ProcessStage}
    {rs rs' : List CallResult} {xs xs' : List AttemptEvent} (step : q.Step t s stage? rs xs s₁ stage₁?)
    (run : Run q s₁ stage₁? rs' xs' s' stage?') : Run q s stage? (rs ++ rs') (xs ++ xs') s' stage?'

theorem begun_append (xs xs' : List AttemptEvent) : begun (xs ++ xs') = begun xs ++ begun xs' := by
  rw [begun, List.filter_append, List.map_append, begun, begun]

namespace Run

/-- No more attempts begin than the quota allows. -/
theorem left_le (h : q.Run s stage? rs xs s' stage?') :
    xs.countP AttemptEvent.isBegun + q.left s' stage?' ≤ q.left s stage? := by
  induction h with
  | nil => exact Nat.le_of_eq (Nat.zero_add _)
  | cons step run ih =>
    have hstep := step.left_le
    rw [List.countP_append]
    omega

theorem answers_le (h : q.Run s stage? rs xs s' stage?') :
    rs.countP (· ≠ .count 0) + (stage?'.any ProcessStage.hasBegun).toNat ≤
      xs.countP AttemptEvent.isBegun + (stage?.any ProcessStage.hasBegun).toNat := by
  induction h with
  | nil => exact Nat.le_refl _
  | cons step run ih =>
    have hstep := step.answers_le
    rw [List.countP_append, List.countP_append]
    omega

theorem isSpent (h : q.Run s stage? rs xs s' stage?') (hspent : q.IsSpent s stage? ∨ .count 0 ∈ rs) :
    q.IsSpent s' stage?' := by
  induction h with
  | nil => exact hspent.resolve_right List.not_mem_nil
  | cons step run ih =>
    refine ih ?_
    rcases hspent with hspent | hrs
    · exact .inl (step.isSpent hspent)
    · exact (List.mem_append.mp hrs).imp_left step.isSpent_of_mem

/-- As long as all attempts succeed, the claims that are dispatched, then those in hand, then the due entries
are always the same, one after the other. -/
theorem ids_eq (h : q.Run s stage? rs xs s' stage?') (hall : AllSucceed rs xs) :
    begun xs ++ ((stage?'.elim [] ProcessStage.waiting).map Entry.id ++ (q.due s').map Entry.id) =
      (stage?.elim [] ProcessStage.waiting).map Entry.id ++ (q.due s).map Entry.id := by
  induction h with
  | nil => rfl
  | cons step run ih =>
    obtain ⟨hfirst, hrest⟩ := hall.append
    rw [begun_append, List.append_assoc, ih hrest, step.ids_eq hfirst]

theorem isDispatched (h : q.Run s stage? rs xs s' stage?') (hall : AllSucceed rs xs) {id : EntryId}
    (hid : IsDispatched s stage? id ∨ id ∈ begun xs) : IsDispatched s' stage?' id := by
  induction h with
  | nil => exact hid.resolve_right List.not_mem_nil
  | cons step run ih =>
    obtain ⟨hfirst, hrest⟩ := hall.append
    refine ih hrest ?_
    rcases hid with hid | hbegun
    · exact .inl (step.isDispatched hfirst hid)
    · rw [begun_append] at hbegun
      exact (List.mem_append.mp hbegun).imp_left step.isDispatched_of_begun

end Run

end Quota

end DurableQueue
