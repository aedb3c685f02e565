import DurableQueue.Proofs.Store.Claiming
import DurableQueue.Proofs.Store.Conservation
import DurableQueue.Proofs.Store.Failures
import DurableQueue.Proofs.Store.Lifecycle
import DurableQueue.Store.Relational

/-!
What the relational client refuses on its own.

A client judges an update by the two entries that it is given, a store by the entry that it holds. Yet they
agree: an update that the client denies is refused by every store that a run leads to, and what one of these
stores accepts passes the checks of the client (`refusals_shared`). The client could not check more without
refusing an update that some store accepts (`accepted_iff_connects`).
-/

namespace DurableQueue

/-- Whether an error says that there is no such move, or that the claim is lost. -/
def StoreError.deniesUpdate : StoreError → Bool
  | .invalidMove _ _ _ | .modifiedConcurrently _ => true
  | _ => false

namespace Store

variable {claimed next : Entry} {now : Timestamp}

/-- An update is refused, or it finds the claim stored and makes a move that leads from there. -/
theorem refused_or_accepted (s : Store) (claimed next : Entry) (now : Timestamp) :
    (∃ e, (s.apply (.update claimed next) now).1 = .error e) ∨
      (s.apply (.update claimed next) now).1 = .ok .done ∧
        ∃ stored, s.liveEntry? claimed.id = some stored ∧ isSameClaim stored claimed = true ∧
          stored.state.canMoveTo next.state = true := by
  have heffect := effect_apply s (.update claimed next) now
  generalize s.apply (.update claimed next) now = outcome at heffect
  obtain ⟨answer, after⟩ := outcome
  cases heffect with
  | failed e left => exact .inl ⟨e, rfl⟩
  | read hr => cases hr
  | resolved found same move => exact .inr ⟨rfl, _, found, same, move⟩

/-- Of a store whose owners match, only who holds a claim has an update accepted, and only with a move out of
processing. -/
theorem held_of_accepted {s : Store} (hs : ∀ e ∈ s.stored, e.ownerMatches = true)
    (h : (s.apply (.update claimed next) now).1 = .ok .done) :
    EntryState.inProcessing.canMoveTo next.state = true ∧ claimed.processingOwner.isSome = true := by
  rcases refused_or_accepted s claimed next now with ⟨e, he⟩ | ⟨-, stored, found, same, move⟩
  · rw [he] at h
    cases h
  · obtain ⟨hstate, howner, -⟩ := isSameClaim_iff.mp same
    have hstored : stored ∈ s.stored := List.mem_append_left _ (List.mem_of_find?_eq_some found)
    rw [hstate] at move
    refine ⟨move, ?_⟩
    rw [← howner]
    exact (Entry.ownerMatches_iff.mp (hs stored hstored)).mpr hstate

/-- The stores that runs lead to, from the empty one. -/
def IsReachable (s : Store) : Prop := ∃ ops, (empty.run ops).2 = s

theorem IsReachable.ownerMatches {s : Store} (h : s.IsReachable) : ∀ e ∈ s.stored, e.ownerMatches = true := by
  obtain ⟨ops, rfl⟩ := h
  exact ownerMatches_run isWellFormed_empty (by simp [stored, empty]) ops

/-! A run that leads to a given claim: as many appends as its number says, and a claim of them all. -/

/-- The store of so many entries that were all appended at one time. -/
def ofAppends (new : NewEntry) (t : Timestamp) (n : Nat) : Store :=
  { empty with lastId := n, live := (List.range n).map fun i : Nat => .ofNew ⟨i + 1⟩ new t }

theorem snd_append_ofAppends (new : NewEntry) (t : Timestamp) (n : Nat) :
    ((ofAppends new t n).apply (.append new) t).2 = ofAppends new t (n + 1) := by
  simp [apply, append, guarded, Outcome.map, ofAppends, empty, List.range_succ]

theorem run_appends (new : NewEntry) (t : Timestamp) (m n : Nat) (rest : List (StoreOp × Timestamp)) :
    ((ofAppends new t m).run (List.replicate n (.append new, t) ++ rest)).2 =
      ((ofAppends new t (m + n)).run rest).2 := by
  induction n generalizing m with
  | zero => rfl
  | succ n ih =>
    have hrest := ih (m + 1)
    rw [← snd_append_ofAppends, Nat.add_right_comm] at hrest
    exact hrest

/-- The last entry that was appended is claimed when all are. -/
theorem liveEntry?_claim_ofAppends (new : NewEntry) (t : Timestamp) (n : Nat) (node : NodeId) :
    liveEntry? ((ofAppends new t (n + 1)).apply (.claim (n + 1) node none) t).2 ⟨n + 1⟩ =
      some ((Entry.ofNew ⟨n + 1⟩ new t).claimedBy node t) := by
  have hs : ((ofAppends new t (n + 1)).live.map Entry.id).Pairwise (· < ·) := by
    rw [ofAppends, List.map_map, List.pairwise_map]
    refine List.pairwise_lt_range.imp fun hlt => ?_
    simp only [Function.comp, Entry.ofNew, EntryId.lt_def]
    omega
  have htakes := takesFirstDue_claimFirst hs (n + 1) node none t
  have hdue : (ofAppends new t (n + 1)).live.filter (fun e => e.IsDue none t) =
      (ofAppends new t (n + 1)).live := by
    refine List.filter_eq_self.mpr fun e he => decide_eq_true ?_
    obtain ⟨i, -, rfl⟩ := List.mem_map.mp he
    exact ⟨rfl, le_refl t, by simp⟩
  have hall : (ofAppends new t (n + 1)).live.take (n + 1) = (ofAppends new t (n + 1)).live :=
    List.take_of_length_le (by simp [ofAppends])
  have hlast : Entry.ofNew ⟨n + 1⟩ new t ∈ (ofAppends new t (n + 1)).live :=
    List.mem_map.mpr ⟨n, List.self_mem_range_succ, rfl⟩
  refine htakes.stored ((Entry.ofNew ⟨n + 1⟩ new t).claimedBy node t) ?_
  rw [htakes.first, hdue, hall]
  exact List.mem_map.mpr ⟨_, hlast, rfl⟩

/-- An update that has a claim and a move out of processing is accepted after some run. -/
theorem exists_accepting_of_held (hnumber : 1 ≤ claimed.id.number)
    (hmove : EntryState.inProcessing.canMoveTo next.state = true)
    (howner : claimed.processingOwner.isSome = true) (now : Timestamp) :
    ∃ s : Store, s.IsReachable ∧ (s.apply (.update claimed next) now).1 = .ok .done := by
  obtain ⟨n, hn⟩ : ∃ n : Nat, claimed.id = ⟨n + 1⟩ := by
    have hsucc : claimed.id.number = ((claimed.id.number - 1).toNat : Int) + 1 := by omega
    exact ⟨_, congrArg EntryId.mk hsucc⟩
  obtain ⟨node, hnode⟩ := Option.isSome_iff_exists.mp howner
  let new : NewEntry := ⟨claimed.payload, claimed.creatingOwner, claimed.searchKeys⟩
  let t := claimed.updatedTime
  let s := ((ofAppends new t (n + 1)).apply (.claim (n + 1) node none) t).2
  have hreach : s.IsReachable := by
    refine ⟨List.replicate (n + 1) (.append new, t) ++ [(.claim (n + 1) node none, t)], ?_⟩
    have h := run_appends new t 0 (n + 1) [(.claim (n + 1) node none, t)]
    rwa [Nat.zero_add] at h
  have hfound : s.liveEntry? claimed.id = some ((Entry.ofNew ⟨n + 1⟩ new t).claimedBy node t) := by
    rw [hn]
    exact liveEntry?_claim_ofAppends new t n node
  have hsame : isSameClaim ((Entry.ofNew ⟨n + 1⟩ new t).claimedBy node t) claimed = true :=
    isSameClaim_iff.mpr ⟨rfl, hnode.symm, rfl⟩
  refine ⟨s, hreach, ?_⟩
  rw [apply, update_of_held rfl hfound hsame hmove]
  rfl

end Store

namespace Relational

variable {claimed next : Entry} {now : Timestamp}

/-- What an update has to meet so that the client goes on to the database. -/
theorem check_update_eq_connect_iff : check (.update claimed next) now = .connect ↔
    EntryState.inProcessing.canMoveTo next.state = true ∧ claimed.processingOwner.isSome = true ∧
      next.errorCount.toNat < 2 ^ 31 := by
  have hpow : Nat.pow 2 31 = 2 ^ 31 := rfl
  simp only [check, checkUpdate, hpow]
  cases EntryState.inProcessing.canMoveTo next.state with
  | false => simp
  | true => cases claimed.processingOwner <;> simp

/-- The client denies an update exactly if it has no move to make or no claim. -/
theorem denied_iff : (∃ e, check (.update claimed next) now = .refuse e ∧ e.deniesUpdate = true) ↔
    ¬ (EntryState.inProcessing.canMoveTo next.state = true ∧ claimed.processingOwner.isSome = true) := by
  simp only [check, checkUpdate]
  cases EntryState.inProcessing.canMoveTo next.state with
  | false => simp [StoreError.deniesUpdate]
  | true =>
    cases claimed.processingOwner with
    | none => simp [StoreError.deniesUpdate]
    | some node =>
      -- the error of a count out of range denies nothing
      by_cases hcount : Nat.pow 2 31 ≤ next.errorCount.toNat <;> simp [hcount, StoreError.deniesUpdate]

/-- An update that the client denies, because it has no move to make or no claim, is refused by every store that
a run leads to, and leaves the tables as they are. An update that such a store accepts passes all checks of the
client, provided that its error count is in range. -/
theorem refusals_shared (claimed next : Entry) :
    (∀ now e, check (.update claimed next) now = .refuse e → e.deniesUpdate = true →
      ∀ s : Store, s.IsReachable → ∀ later, ∃ error, s.apply (.update claimed next) later =
        (.error error, { s with failuresLeft := s.failuresLeft - 1 })) ∧
    ∀ s : Store, s.IsReachable → ∀ later, (s.apply (.update claimed next) later).1 = .ok .done →
      next.errorCount.toNat < 2 ^ 31 → ∀ now, check (.update claimed next) now = .connect := by
  constructor
  · intro now e hcheck he s hs later
    have hfree := denied_iff.mp ⟨e, hcheck, he⟩
    rcases Store.refused_or_accepted s claimed next later with ⟨error, herror⟩ | ⟨hok, -⟩
    · exact ⟨error, Prod.ext herror (Store.snd_apply_of_error herror)⟩
    · exact absurd (Store.held_of_accepted hs.ownerMatches hok) hfree
  · intro s hs later hok hcount now
    obtain ⟨hmove, howner⟩ := Store.held_of_accepted hs.ownerMatches hok
    exact check_update_eq_connect_iff.mpr ⟨hmove, howner, hcount⟩

/-- The store in which the first entry is appended and claimed. -/
def claimedStore : Store :=
  (Store.empty.run [(.append ⟨⟨"order", []⟩, ⟨"node"⟩, .none⟩, .epoch), (.claim 1 ⟨"node"⟩ none, .epoch)]).2

/-- An update of the claim that leaves it claimed, one that has lost its owner, and one that is in order. -/
theorem refusals_shared_claimedStore :
    let unowned := { Store.firstClaim with processingOwner := none }
    let done := { Store.firstClaim with state := .processed }
    check (.update Store.firstClaim Store.firstClaim) .latest =
        .refuse (.invalidMove ⟨1⟩ .inProcessing .inProcessing) ∧
      (∃ e, claimedStore.apply (.update Store.firstClaim Store.firstClaim) .latest = (.error e, claimedStore)) ∧
      check (.update unowned done) .latest = .refuse (.modifiedConcurrently ⟨1⟩) ∧
      (∃ e, claimedStore.apply (.update unowned done) .latest = (.error e, claimedStore)) ∧
      (claimedStore.apply (.update Store.firstClaim done) .latest).1 = .ok .done ∧
      check (.update Store.firstClaim done) .latest = .connect := by
  have hs : claimedStore.IsReachable := ⟨_, rfl⟩
  have hok : (claimedStore.apply (.update Store.firstClaim { Store.firstClaim with state := .processed })
      .latest).1 = .ok .done := rfl
  refine ⟨rfl, ?_, rfl, ?_, hok, ?_⟩
  · exact (refusals_shared _ _).1 .latest _ rfl rfl claimedStore hs .latest
  · exact (refusals_shared _ _).1 .latest _ rfl rfl claimedStore hs .latest
  · exact (refusals_shared _ _).2 claimedStore hs .latest hok (by decide) .latest

/-- Of updates to numbers that are given out, with an error count in range, exactly those pass the checks that
some store accepts. -/
theorem accepted_iff_connects (hnumber : 1 ≤ claimed.id.number) (hcount : next.errorCount.toNat < 2 ^ 31)
    (now later : Timestamp) :
    (∃ s : Store, s.IsReachable ∧ (s.apply (.update claimed next) later).1 = .ok .done) ↔
      check (.update claimed next) now = .connect := by
  rw [check_update_eq_connect_iff]
  constructor
  · rintro ⟨s, hs, hok⟩
    obtain ⟨hmove, howner⟩ := Store.held_of_accepted hs.ownerMatches hok
    exact ⟨hmove, howner, hcount⟩
  · rintro ⟨hmove, howner, -⟩
    exact Store.exists_accepting_of_held hnumber hmove howner later

end Relational

end DurableQueue
