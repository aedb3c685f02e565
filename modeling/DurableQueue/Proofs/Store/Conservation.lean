import DurableQueue.Proofs.Store.Chronology
import DurableQueue.Proofs.Store.Tables

/-!
No entry is lost and none is duplicated.

`Store.Accounts` balances what is stored before and after a part of a run against the numbers that
its appends answered. Together with the shape of a store and the pairing of owner and state
(`ownerMatches_run`) it gives `entries_conserved`: the maps of every run file exactly the entries
that were appended, each under its number and in one of the maps.
-/

namespace DurableQueue

namespace StoreOp

/-- The number that an answered operation gave out. -/
def issues : StoreOp → Except StoreError StoreAnswer → List EntryId
  | .append _, .ok (.entry e) => [e.id]
  | _, _ => []

@[simp] theorem issues_error (op : StoreOp) (e : StoreError) : op.issues (.error e) = [] := by
  cases op <;> rfl

theorem issues_of_isReading {op : StoreOp} (h : Store.isReading op = true)
    (a : Except StoreError StoreAnswer) : op.issues a = [] := by
  cases op <;> first | rfl | cases h

end StoreOp

/-- What becomes of an entry has an owner exactly while it is claimed, if the entry had. -/
theorem Entry.Fate.ownerMatches {now : Timestamp} {op : StoreOp}
    {a : Except StoreError StoreAnswer} {e e' : Entry} (h : Fate now op a e e')
    (he : e.ownerMatches = true) : e'.ownerMatches = true := by
  cases h with
  | kept _ _ => exact he
  | claimed hop ha wanted listed => rfl
  | @resolved claim next hop ha hid same move =>
    -- no edge leads from a claimed entry to a claimed one
    rw [(Store.isSameClaim_iff.mp same).1] at move
    cases hnext : next.state with
    | inProcessing =>
      rw [hnext] at move
      cases move
    | _ => simp [Entry.ownerMatches, Store.resolved, hnext]
  | @reaped policy cutoff es hop ha hc stale listed only =>
    rcases policy.stateAfter_eq e.errorCount with h | h <;>
      simp [Entry.ownerMatches, Entry.reaped, h]
  | released hop ha held listed only => rfl

theorem Entry.ownerMatches_iff {e : Entry} :
    e.ownerMatches = true ↔ (e.processingOwner.isSome = true ↔ e.state = .inProcessing) := by
  rw [Entry.ownerMatches, beq_iff_eq, Bool.eq_iff_iff, beq_iff_eq]

/-- The sum of a count for each state. -/
def EntryState.total (counts : EntryState → Nat) : Nat := (all.map counts).foldr (· + ·) 0

/-- Every entry is in one of the states. -/
theorem EntryState.total_countP (es : List Entry) :
    (total fun state => es.countP fun e => e.state == state) = es.length := by
  induction es with
  | nil => rfl
  | cons e es ih =>
    simp only [total, all, List.map_cons, List.map_nil, List.foldr_cons, List.foldr_nil,
      List.countP_cons, List.length_cons] at ih ⊢
    cases e.state <;> simp <;> omega

namespace Store

variable {s s' s'' : Store} {op : StoreOp} {now : Timestamp} {a : Except StoreError StoreAnswer}
  {ids ids' : List EntryId}

/-- The numbers that the appends of a run answered, in order. -/
def issued (events : List (StoreOp × Except StoreError StoreAnswer)) : List EntryId :=
  events.flatMap fun event => event.1.issues event.2

/-- Between two stores these numbers were given out, one after the other, and the entries that are
stored afterwards are those that were stored before and one for each number. -/
structure Accounts (s s' : Store) (ids : List EntryId) : Prop where
  stored : (s'.stored.map Entry.id).Perm (s.stored.map Entry.id ++ ids)
  consecutive : ids = (List.range ids.length).map fun i => ⟨s.lastId + 1 + i⟩
  lastId : s'.lastId = s.lastId + ids.length

namespace Accounts

theorem of_perm (h : (s'.stored.map Entry.id).Perm (s.stored.map Entry.id))
    (hlast : s'.lastId = s.lastId) : Accounts s s' [] where
  stored := by rwa [List.append_nil]
  consecutive := rfl
  lastId := by simp [hlast]

theorem of_ids (hlive : s'.live.map Entry.id = s.live.map Entry.id)
    (hhistory : s'.history = s.history) (hlast : s'.lastId = s.lastId) : Accounts s s' [] := by
  refine of_perm ?_ hlast
  rw [Store.stored, Store.stored, List.map_append, List.map_append, hlive, hhistory]

theorem trans (h : Accounts s s' ids) (h' : Accounts s' s'' ids') :
    Accounts s s'' (ids ++ ids') where
  stored := by
    rw [← List.append_assoc]
    exact h'.stored.trans (h.stored.append_right ids')
  consecutive := by
    rw [List.length_append, List.range_add, List.map_append, ← h.consecutive, List.map_map]
    congr 1
    refine h'.consecutive.trans (List.map_congr_left fun i _ => ?_)
    simp only [h.lastId, Function.comp, EntryId.mk.injEq]
    omega
  lastId := by
    rw [h'.lastId, h.lastId, List.length_append]
    omega

theorem ascending (h : Accounts s s' ids) : ids.Pairwise (· < ·) := by
  rw [h.consecutive, List.pairwise_map]
  refine List.pairwise_lt_range.imp fun hlt => ?_
  rw [EntryId.lt_def]
  simp only
  omega

theorem mem_iff (h : Accounts s s' ids) {id : EntryId} :
    id ∈ ids ↔ s.lastId < id.number ∧ id.number ≤ s'.lastId := by
  rw [h.lastId]
  constructor
  · intro hid
    rw [h.consecutive] at hid
    obtain ⟨i, hi, rfl⟩ := List.mem_map.mp hid
    have hlt := List.mem_range.mp hi
    simp only
    omega
  · rintro ⟨hlow, hhigh⟩
    rw [h.consecutive]
    refine List.mem_map.mpr ⟨(id.number - s.lastId - 1).toNat, List.mem_range.mpr (by omega), ?_⟩
    obtain ⟨n⟩ := id
    simp only [EntryId.mk.injEq] at hlow ⊢
    omega

end Accounts

/-- The balance of one operation. -/
theorem accounts_of_effect (he : Effect now s op a s') : Accounts s s' (op.issues a) := by
  cases he with
  | failed e left =>
    rw [StoreOp.issues_error]
    exact .of_ids rfl rfl rfl
  | read hr b left =>
    rw [StoreOp.issues_of_isReading hr]
    exact .of_ids rfl rfl rfl
  | appended new =>
    refine ⟨?_, ?_, rfl⟩
    · simp only [stored, List.append_assoc, List.singleton_append, StoreOp.issues]
      refine (List.perm_middle.map Entry.id).trans ?_
      exact (List.perm_append_singleton _ _).symm
    · simp [StoreOp.issues, Entry.ofNew]
  | claimed count claimer owner => exact .of_ids (ids_claimFirst _ _ _ _ _) rfl rfl
  | resolved found same move => exact .of_ids (ids_replace _ _) rfl rfl
  | reaped hc => exact .of_ids (ids_changeWhere _ _ fun _ => rfl) rfl rfl
  | released owner => exact .of_ids (ids_changeWhere _ _ fun _ => rfl) rfl rfl
  | purged olderThan => exact .of_perm ((perm_stored_purged s _).map Entry.id) rfl

/-- The balance of a run. -/
theorem accounts_run (s : Store) (ops : List (StoreOp × Timestamp)) :
    Accounts s (s.run ops).2 (issued (s.events ops)) := by
  induction ops generalizing s with
  | nil => exact .of_ids rfl rfl rfl
  | cons op rest ih =>
    exact (accounts_of_effect (effect_apply s op.1 op.2)).trans (ih (s.apply op.1 op.2).2)

theorem ownerMatches_of_effect (h : s.IsWellFormed) (he : Effect now s op a s')
    (hs : ∀ e ∈ s.stored, e.ownerMatches = true) : ∀ e ∈ s'.stored, e.ownerMatches = true := by
  intro f hf
  rcases exists_before h he hf with ⟨e, hmem, hfate⟩ | ⟨new, rfl⟩
  · exact hfate.ownerMatches (hs e hmem)
  · rfl

theorem ownerMatches_run (h : s.IsWellFormed) (hs : ∀ e ∈ s.stored, e.ownerMatches = true)
    (ops : List (StoreOp × Timestamp)) : ∀ e ∈ (s.run ops).2.stored, e.ownerMatches = true := by
  induction ops generalizing s with
  | nil => exact hs
  | cons op rest ih =>
    have he := effect_apply s op.1 op.2
    exact ih (isWellFormed_of_effect h he) (ownerMatches_of_effect h he hs)

end Store

namespace Tables

variable {t : Tables} {s : Store} {ids : List EntryId}

/-- What the maps of a run file, given the numbers that its appends answered. -/
structure Conserves (t : Tables) (ids : List EntryId) : Prop where
  /-- Live entries are filed under their numbers. -/
  liveKey : ∀ (key : EntryId) (e : Entry), t.live[key]? = some e → e.id = key
  /-- Purged entries are filed under their numbers. -/
  historyKey : ∀ (key : EntryId) (e : Entry), t.history[key]? = some e → e.id = key
  disjoint : ∀ key, key ∈ t.live → key ∉ t.history
  /-- The keys are the numbers up to the last one. -/
  keys : ∀ key, key ∈ t.live ∨ key ∈ t.history ↔ 1 ≤ key.number ∧ key.number ≤ t.lastId
  /-- The last number counts the appends. -/
  lastId : t.lastId = ids.length
  /-- Every number is given out once, later ones after earlier ones. -/
  ascending : ids.Pairwise (· < ·)
  /-- What was appended stays filed. -/
  kept : ∀ key, key ∈ t.live ∨ key ∈ t.history ↔ key ∈ ids
  retired : ∀ (key : EntryId) (e : Entry), t.history[key]? = some e → e.state.isTerminal = true
  owned : ∀ (key : EntryId) (e : Entry), t.live[key]? = some e ∨ t.history[key]? = some e →
    (e.processingOwner.isSome = true ↔ e.state = .inProcessing)
  /-- The counts of all states and the purged entries add up to the appends. -/
  total : ∀ counts : EntryState → Nat,
    (∀ state, ∃ now, (t.apply (.count state) now).1 = .ok (.count (counts state))) →
    EntryState.total counts + t.history.size = ids.length
  /-- While no failure is injected all states can be counted. -/
  countable : t.failuresLeft = 0 →
    ∃ counts : EntryState → Nat, ∀ state now,
      (t.apply (.count state) now).1 = .ok (.count (counts state))

namespace Filed

variable {table : EntryTable} {es : List Entry}

theorem mem_iff (h : Filed table es) {key : EntryId} : key ∈ table ↔ key ∈ es.map Entry.id := by
  rw [Std.TreeMap.mem_iff_isSome_getElem?, Option.isSome_iff_exists, List.mem_map]
  exact exists_congr fun e => h key e

theorem size_eq (h : Filed table es) (hn : (es.map Entry.id).Nodup) : table.size = es.length := by
  rw [← Std.TreeMap.length_toList, (h.perm hn).length_eq, List.length_map]

end Filed

/-- A count is answered exactly while no failure is injected. -/
theorem Files.count_answer_iff (h : Files t s) (hs : s.IsWellFormed) (state : EntryState)
    (now : Timestamp) (n : Nat) :
    (t.apply (.count state) now).1 = .ok (.count n) ↔
      t.failuresLeft = 0 ∧ n = s.live.countP fun e => e.state == state := by
  rw [(h.agrees_apply hs (.count state) now).answer, h.failuresLeft]
  cases hleft : s.failuresLeft with
  | zero =>
    simp only [Store.apply, Store.count, Store.guarded, hleft, Store.Outcome.map,
      Except.ok.injEq, StoreAnswer.count.injEq, true_and]
    exact eq_comm
  | succ m => simp [Store.apply, Store.count, Store.guarded, hleft, Store.Outcome.map]

theorem conserves_of_files (h : Files t s) (hs : s.IsWellFormed)
    (howned : ∀ e ∈ s.stored, e.ownerMatches = true) (haccounts : Store.Accounts .empty s ids) :
    Conserves t ids := by
  have hids : (s.stored.map Entry.id).Perm ids := haccounts.stored
  have hkeys : ∀ key, key ∈ t.live ∨ key ∈ t.history ↔ key ∈ ids := by
    intro key
    rw [h.live.mem_iff, h.history.mem_iff, ← List.mem_append, ← List.map_append]
    exact hids.mem_iff
  have hhistory : t.history.size = s.history.length :=
    h.history.size_eq hs.nodup_ids_history
  exact {
    liveKey key e he := ((h.live key e).mp he).2
    historyKey key e he := ((h.history key e).mp he).2
    disjoint := by
      intro key hlive hhistory
      obtain ⟨e, he, rfl⟩ := List.mem_map.mp (h.live.mem_iff.mp hlive)
      obtain ⟨f, hf, hid⟩ := List.mem_map.mp (h.history.mem_iff.mp hhistory)
      exact hs.id_ne_of_mem he hf hid.symm
    keys := by
      intro key
      rw [hkeys, haccounts.mem_iff, h.lastId]
      exact Iff.rfl
    lastId := by
      rw [h.lastId, haccounts.lastId]
      exact Int.zero_add _
    ascending := haccounts.ascending
    kept := hkeys
    retired key e he := hs.retired e ((h.history key e).mp he).1
    owned := by
      rintro key e (he | he)
      · exact Entry.ownerMatches_iff.mp (howned e (List.mem_append_left _ ((h.live key e).mp he).1))
      · exact Entry.ownerMatches_iff.mp
          (howned e (List.mem_append_right _ ((h.history key e).mp he).1))
    total := by
      intro counts hcounts
      have hcount : counts = fun state => s.live.countP fun e => e.state == state := by
        funext state
        obtain ⟨now, hnow⟩ := hcounts state
        exact ((h.count_answer_iff hs state now _).mp hnow).2
      rw [hcount, EntryState.total_countP, hhistory, ← List.length_append, ← hids.length_eq,
        List.length_map, Store.stored]
    countable := fun hleft => ⟨fun state => s.live.countP fun e => e.state == state,
      fun state now => (h.count_answer_iff hs state now _).mpr ⟨hleft, rfl⟩⟩ }

/-- After every run the maps give the answers of the lists and list the same entries, and they file
every entry that was appended exactly once. -/
theorem entries_conserved (ops : List (StoreOp × Timestamp)) :
    (empty.run ops).1 = (Store.empty.run ops).1 ∧
    (empty.run ops).2.Files (Store.empty.run ops).2 ∧
    (empty.run ops).2.live.toList = (Store.empty.run ops).2.live.map (fun e => (e.id, e)) ∧
    (empty.run ops).2.history.toList.Perm
      ((Store.empty.run ops).2.history.map fun e => (e.id, e)) ∧
    (empty.run ops).2.Conserves (Store.issued (Store.empty.events ops)) := by
  obtain ⟨hanswers, hfiles⟩ := agrees_run files_empty Store.isWellFormed_empty ops
  have hs := Store.isWellFormed_run Store.isWellFormed_empty ops
  have howned := Store.ownerMatches_run Store.isWellFormed_empty
    (by simp [Store.empty, Store.stored]) ops
  exact ⟨hanswers, hfiles, hfiles.live.toList_eq hs.ascending,
    hfiles.history.perm hs.nodup_ids_history,
    conserves_of_files hfiles hs howned (Store.accounts_run .empty ops)⟩

end Tables

end DurableQueue
