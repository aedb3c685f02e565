import DurableQueue.Proofs.Lists
import DurableQueue.Proofs.Store.Fate

/-!
What a claim takes.

`Entry.IsDue` says which entries a claim may take, and `Store.TakesFirstDue` that it takes the first of
them, changes these alone, and answers them as they are stored. `Store.claim_exact` proves this of every
claim, and that claiming twice is claiming the sum at once.
-/

namespace DurableQueue

/-- Whether an entry waits, its time has come, and it is of the creator to whom a claim is restricted, if
to any. -/
def Entry.IsDue (owner : Option NodeId) (now : Timestamp) (e : Entry) : Prop :=
  e.state = .available ∧ e.nextAvailableTime ≤ now ∧ ∀ node ∈ owner, e.creatingOwner = node

instance (owner : Option NodeId) (now : Timestamp) (e : Entry) : Decidable (e.IsDue owner now) :=
  inferInstanceAs (Decidable (_ ∧ _ ∧ _))

namespace Store

variable {s : Store} {claimer : NodeId} {owner : Option NodeId} {now : Timestamp} {count : Nat}
  {e : Entry} {es : List Entry}

theorem isWanted_eq_decide_isDue (owner : Option NodeId) (now : Timestamp) :
    isWanted owner now = fun e => decide (e.IsDue owner now) := by
  funext e
  rw [Bool.eq_iff_iff, isWanted_iff, Entry.isClaimableAt_iff, decide_eq_true_iff]
  simp only [Entry.IsDue, Option.mem_def, and_assoc]

/-- Who is claimed is wanted no more, by whomever. -/
theorem isWanted_claimedBy (owner : Option NodeId) (claimer : NodeId) (claimedAt now : Timestamp)
    (e : Entry) : isWanted owner now (e.claimedBy claimer claimedAt) = false := by
  simp [isWanted, Entry.isClaimableAt, Entry.claimedBy]

theorem claimFirst_zero (claimer : NodeId) (owner : Option NodeId) (now : Timestamp) (es : List Entry) :
    claimFirst claimer owner now 0 es = ([], es) := by
  cases es <;> rfl

theorem claimFirst_nil (claimer : NodeId) (owner : Option NodeId) (now : Timestamp) (count : Nat) :
    claimFirst claimer owner now count [] = ([], []) := by
  cases count <;> rfl

theorem claimFirst_cons_of_isWanted (hw : isWanted owner now e = true) :
    claimFirst claimer owner now (count + 1) (e :: es) =
      (e.claimedBy claimer now :: (claimFirst claimer owner now count es).1,
        e.claimedBy claimer now :: (claimFirst claimer owner now count es).2) := by
  simp [claimFirst, hw]

/-- A claim passes by who is not wanted. -/
theorem claimFirst_cons_of_not_isWanted (hw : isWanted owner now e = false) :
    claimFirst claimer owner now count (e :: es) =
      ((claimFirst claimer owner now count es).1, e :: (claimFirst claimer owner now count es).2) := by
  cases count with
  | zero => simp [claimFirst_zero]
  | succ n => simp [claimFirst, hw]

/-- A claim leaves an entry alone that is not wanted. -/
theorem mem_claimFirst_snd (he : e ∈ es) (hw : isWanted owner now e = false) :
    e ∈ (claimFirst claimer owner now count es).2 := by
  induction es generalizing count with
  | nil => cases he
  | cons f es ih =>
    by_cases hf : isWanted owner now f = true
    · cases count with
      | zero => rwa [claimFirst_zero]
      | succ count =>
        have hne : e ≠ f := by
          rintro rfl
          rw [hw] at hf
          cases hf
        rw [claimFirst_cons_of_isWanted hf]
        exact List.mem_cons_of_mem _ (ih ((List.mem_cons.mp he).resolve_left hne))
    · rw [claimFirst_cons_of_not_isWanted (Bool.eq_false_iff.mpr hf)]
      exact (List.mem_cons.mp he).elim (fun heq => heq ▸ List.mem_cons_self)
        fun he => List.mem_cons_of_mem _ (ih he)

/-- To claim `m` entries and then `n` is to claim `m + n`. -/
theorem claimFirst_add (claimer : NodeId) (owner : Option NodeId) (now : Timestamp) (m n : Nat)
    (es : List Entry) :
    claimFirst claimer owner now (m + n) es =
      ((claimFirst claimer owner now m es).1 ++
          (claimFirst claimer owner now n (claimFirst claimer owner now m es).2).1,
        (claimFirst claimer owner now n (claimFirst claimer owner now m es).2).2) := by
  induction es generalizing m with
  | nil => simp [claimFirst_nil]
  | cons e es ih =>
    by_cases hw : isWanted owner now e = true
    · cases m with
      | zero => simp [claimFirst_zero]
      | succ m =>
        -- the second claim passes by the entry that the first one took
        have hpassed := isWanted_claimedBy owner claimer now now e
        rw [Nat.succ_add, claimFirst_cons_of_isWanted hw, claimFirst_cons_of_isWanted hw,
          claimFirst_cons_of_not_isWanted hpassed, ih m]
        rfl
    · have hw := Bool.eq_false_iff.mpr hw
      rw [claimFirst_cons_of_not_isWanted hw, claimFirst_cons_of_not_isWanted hw,
        claimFirst_cons_of_not_isWanted hw, ih m]

theorem claim_of_unfailing (hleft : s.failuresLeft = 0) (count : Nat) (claimer : NodeId)
    (owner : Option NodeId) (now : Timestamp) :
    s.claim count claimer owner now = (.ok (claimFirst claimer owner now count s.live).1,
      { s with live := (claimFirst claimer owner now count s.live).2 }) := by
  simp only [claim, guarded, hleft]

/-- A claim that takes the first due entries, at most so many, and nothing else. -/
structure TakesFirstDue (s : Store) (count : Nat) (claimer : NodeId) (owner : Option NodeId)
    (now : Timestamp) (claimed : List Entry) (s' : Store) : Prop where
  /-- The first due entries, each changed in its state, its holder and its time. -/
  first : claimed = ((s.live.filter fun e => e.IsDue owner now).take count).map fun e =>
    { e with state := .inProcessing, processingOwner := some claimer, updatedTime := now }
  ascending : (claimed.map Entry.id).Pairwise (· < ·)
  stored : ∀ e ∈ claimed, s'.liveEntry? e.id = some e
  others : ∀ id, id ∉ claimed.map Entry.id → s'.liveEntry? id = s.liveEntry? id
  numbers : s'.live.map Entry.id = s.live.map Entry.id
  rest : { s' with live := s.live } = s

/-- Changes that keep all numbers, and leave the entry of one number alone, do not show when it is looked
up. -/
theorem find?_map_of_fixed {f : Entry → Entry} {id : EntryId} (hid : ∀ e ∈ es, (f e).id = e.id)
    (hfixed : ∀ e ∈ es, e.id = id → f e = e) :
    (es.map f).find? (fun e => e.id == id) = es.find? fun e => e.id == id := by
  induction es with
  | nil => rfl
  | cons e es ih =>
    obtain ⟨he, hes⟩ := List.forall_mem_cons.mp hid
    obtain ⟨hfirst, hrest⟩ := List.forall_mem_cons.mp hfixed
    rw [List.map_cons, List.find?_cons, List.find?_cons, he, ih hes hrest]
    by_cases heq : e.id = id
    · simp [heq, hfirst heq]
    · rw [beq_false_of_ne heq]

/-- What a claim takes of entries that ascend by number. -/
theorem takesFirstDue_claimFirst (hs : (s.live.map Entry.id).Pairwise (· < ·)) (count : Nat)
    (claimer : NodeId) (owner : Option NodeId) (now : Timestamp) :
    s.TakesFirstDue count claimer owner now (claimFirst claimer owner now count s.live).1
      { s with live := (claimFirst claimer owner now count s.live).2 } := by
  have hids := EntryId.nodup_of_pairwise_lt hs
  have hwanted := isWanted_eq_decide_isDue owner now
  have hfirst := claimFirst_fst claimer owner now count s.live
  have hsecond := claimFirst_snd claimer owner now count s.live (hids.of_map _)
  rw [hwanted] at hfirst hsecond
  have htaken : ((s.live.filter fun e => e.IsDue owner now).take count).Sublist s.live :=
    (List.take_sublist _ _).trans List.filter_sublist
  have htakes : ((claimFirst claimer owner now count s.live).1).map Entry.id =
      ((s.live.filter fun e => e.IsDue owner now).take count).map Entry.id := by
    rw [hfirst, List.map_map]
    rfl
  have hnumbers := ids_claimFirst claimer owner now count s.live
  refine ⟨hfirst, ?_, ?_, ?_, hnumbers, rfl⟩
  · rw [htakes]
    exact hs.sublist (htaken.map Entry.id)
  · intro e he
    rw [hfirst] at he
    obtain ⟨before, hbefore, rfl⟩ := List.mem_map.mp he
    have hmem : before.claimedBy claimer now ∈ (claimFirst claimer owner now count s.live).2 := by
      rw [hsecond]
      exact List.mem_map.mpr ⟨before, htaken.subset hbefore, if_pos hbefore⟩
    exact find?_of_nodup_map (f := Entry.id) (hnumbers ▸ hids) hmem
  · intro id hid
    rw [htakes] at hid
    rw [ liveEntry?, hsecond]
    refine find?_map_of_fixed ?_ ?_
    · intro e _
      split <;> rfl
    · intro e he heq
      refine if_neg fun htake => hid ?_
      exact List.mem_map.mpr ⟨e, htake, heq⟩

/-- Whatever a store holds, a claim that is not made to fail takes the first entries that are due, in the
order of their numbers, changes nothing else, and answers them as it stored them. To claim twice is to
claim as many at once. -/
theorem claim_exact (s : Store) (hs : (s.live.map Entry.id).Pairwise (· < ·))
    (hleft : s.failuresLeft = 0) (claimer : NodeId) (owner : Option NodeId) (now : Timestamp) :
    (∀ count, ∃ claimed s', s.claim count claimer owner now = (.ok claimed, s') ∧
      s.TakesFirstDue count claimer owner now claimed s') ∧
    ∀ m n, ∃ first middle second last, s.claim m claimer owner now = (.ok first, middle) ∧
      middle.claim n claimer owner now = (.ok second, last) ∧
      s.claim (m + n) claimer owner now = (.ok (first ++ second), last) := by
  constructor
  · intro count
    exact ⟨_, _, claim_of_unfailing hleft count claimer owner now,
      takesFirstDue_claimFirst hs count claimer owner now⟩
  · intro m n
    have hafter : ({ s with live := (claimFirst claimer owner now m s.live).2 } : Store).failuresLeft = 0 :=
      hleft
    refine ⟨_, _, _, _, claim_of_unfailing hleft m claimer owner now,
      claim_of_unfailing hafter n claimer owner now, ?_⟩
    rw [claim_of_unfailing hleft, claimFirst_add]

/-- Six entries: the second is not due yet, the third is of another creator, and the fourth is claimed. -/
def mixedStore : Store :=
  let entry (n : Int) : Entry := .ofNew ⟨n⟩ ⟨⟨"order", []⟩, ⟨"a"⟩, .none⟩ .epoch
  { empty with
    lastId := 6
    live := [entry 1, { entry 2 with nextAvailableTime := .latest },
      { entry 3 with creatingOwner := ⟨"b"⟩ }, (entry 4).claimedBy ⟨"b"⟩ .epoch, entry 5, entry 6] }

/-- Of these entries a restricted claim of two takes the first and the fifth, and a claim of one more takes
the sixth. -/
theorem claim_exact_mixedStore :
    (mixedStore.live.map Entry.id).Pairwise (· < ·) ∧ mixedStore.failuresLeft = 0 ∧
    (∃ claimed s', mixedStore.claim 2 ⟨"a"⟩ (some ⟨"a"⟩) .epoch = (.ok claimed, s') ∧
      claimed.map (·.id.number) = [1, 5] ∧
      mixedStore.TakesFirstDue 2 ⟨"a"⟩ (some ⟨"a"⟩) .epoch claimed s') ∧
    ∃ first middle second last, mixedStore.claim 2 ⟨"a"⟩ (some ⟨"a"⟩) .epoch = (.ok first, middle) ∧
      middle.claim 1 ⟨"a"⟩ (some ⟨"a"⟩) .epoch = (.ok second, last) ∧
      second.map (·.id.number) = [6] ∧
      mixedStore.claim (2 + 1) ⟨"a"⟩ (some ⟨"a"⟩) .epoch = (.ok (first ++ second), last) := by
  have hs : (mixedStore.live.map Entry.id).Pairwise (· < ·) := by decide
  obtain ⟨hexact, hsum⟩ := claim_exact mixedStore hs rfl ⟨"a"⟩ (some ⟨"a"⟩) .epoch
  refine ⟨hs, rfl, ?_, ?_⟩
  · obtain ⟨claimed, s', hclaim, htakes⟩ := hexact 2
    refine ⟨claimed, s', hclaim, ?_, htakes⟩
    rw [htakes.first]
    decide
  · obtain ⟨first, middle, second, last, hfirst, hsecond, hboth⟩ := hsum 2 1
    refine ⟨first, middle, second, last, hfirst, hsecond, ?_, hboth⟩
    have hmiddle : middle = (mixedStore.claim 2 ⟨"a"⟩ (some ⟨"a"⟩) .epoch).2 := by rw [hfirst]
    have hanswer : (middle.claim 1 ⟨"a"⟩ (some ⟨"a"⟩) .epoch).1 = .ok second := by rw [hsecond]
    rw [hmiddle] at hanswer
    have hnumbers : (Except.map (List.map fun e : Entry => e.id.number)
        ((mixedStore.claim 2 ⟨"a"⟩ (some ⟨"a"⟩) .epoch).2.claim 1 ⟨"a"⟩ (some ⟨"a"⟩) .epoch).1) =
        .ok [6] := rfl
    rw [hanswer] at hnumbers
    exact Except.ok.inj hnumbers

end Store

end DurableQueue
