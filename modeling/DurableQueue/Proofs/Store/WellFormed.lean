import DurableQueue.Proofs.Store.Effect
import Mathlib.Data.List.Nodup

/-!
The shape that a store keeps.

A store is well formed when its live entries ascend by number, no number occurs twice among live and
purged entries, every number was given out, and only entries in terminal states are purged.
`isWellFormed_run` says that every run of operations from the empty store ends in a well-formed one.
-/

namespace DurableQueue

theorem EntryId.lt_irrefl (a : EntryId) : ¬ a < a := Int.lt_irrefl a.number

theorem EntryId.nodup_of_pairwise_lt {ids : List EntryId} (h : ids.Pairwise (· < ·)) : ids.Nodup := by
  refine h.imp ?_
  rintro a b hlt rfl
  exact lt_irrefl _ hlt

namespace Store

/-- Every entry of a store, live or purged. -/
def stored (s : Store) : List Entry := s.live ++ s.history

/-- What every operation keeps of the tables. -/
structure IsWellFormed (s : Store) : Prop where
  counted : 0 ≤ s.lastId
  ascending : (s.live.map Entry.id).Pairwise (· < ·)
  distinct : (s.stored.map Entry.id).Nodup
  numbered : ∀ id ∈ s.stored.map Entry.id, 0 < id.number ∧ id.number ≤ s.lastId
  retired : ∀ e ∈ s.history, e.state.isTerminal = true

variable {s s' : Store}

theorem isWellFormed_empty : empty.IsWellFormed where
  counted := Int.le_refl _
  ascending := .nil
  distinct := .nil
  numbered := by simp [empty, stored]
  retired := by simp [empty]

namespace IsWellFormed

/-- No number occurs twice among the live entries, or among the purged ones, or in both. -/
theorem distinct_parts (h : s.IsWellFormed) :
    (s.live.map Entry.id).Nodup ∧ (s.history.map Entry.id).Nodup ∧
      ∀ a ∈ s.live.map Entry.id, ∀ b ∈ s.history.map Entry.id, a ≠ b := by
  have h := h.distinct
  rw [stored, List.map_append] at h
  exact List.nodup_append.mp h

theorem nodup_ids_live (h : s.IsWellFormed) : (s.live.map Entry.id).Nodup := h.distinct_parts.1

theorem nodup_ids_history (h : s.IsWellFormed) : (s.history.map Entry.id).Nodup :=
  h.distinct_parts.2.1

theorem nodup_live (h : s.IsWellFormed) : s.live.Nodup := h.nodup_ids_live.of_map _

/-- No purged entry shares its number with a live one. -/
theorem id_ne_of_mem (h : s.IsWellFormed) {e f : Entry} (he : e ∈ s.live) (hf : f ∈ s.history) :
    e.id ≠ f.id :=
  h.distinct_parts.2.2 e.id (List.mem_map_of_mem he) f.id (List.mem_map_of_mem hf)

/-- An entry is determined by its number. -/
theorem eq_of_id_eq (h : s.IsWellFormed) {e f : Entry} (he : e ∈ s.stored) (hf : f ∈ s.stored)
    (hid : e.id = f.id) : e = f :=
  List.inj_on_of_nodup_map h.distinct he hf hid

theorem mem_live_of_not_isTerminal (h : s.IsWellFormed) {e : Entry} (he : e ∈ s.stored)
    (ht : e.state.isTerminal = false) : e ∈ s.live := by
  rcases List.mem_append.mp he with he | he
  · exact he
  · have hr := h.retired e he
    rw [ht] at hr
    cases hr

/-- Well-formedness depends only on the numbers of the live entries, on the purged entries and on
the last number. -/
theorem of_ids (h : s.IsWellFormed) (hlive : s'.live.map Entry.id = s.live.map Entry.id)
    (hhistory : s'.history = s.history) (hlast : s'.lastId = s.lastId) : s'.IsWellFormed := by
  have hstored : s'.stored.map Entry.id = s.stored.map Entry.id := by
    rw [stored, stored, List.map_append, List.map_append, hlive, hhistory]
  exact {
    counted := hlast ▸ h.counted
    ascending := hlive ▸ h.ascending
    distinct := hstored ▸ h.distinct
    numbered := by
      rw [hstored, hlast]
      exact h.numbered
    retired := by
      rw [hhistory]
      exact h.retired }

theorem lookup?_eq_some_iff (h : s.IsWellFormed) {id : EntryId} {e : Entry} :
    s.lookup? id = some e ↔ e ∈ s.stored ∧ e.id = id := by
  have hfind : s.lookup? id = s.stored.find? fun e => e.id == id := by
    rw [lookup?, liveEntry?, stored, List.find?_append]
    cases s.live.find? fun e => e.id == id <;> rfl
  rw [hfind]
  constructor
  · intro hf
    exact ⟨List.mem_of_find?_eq_some hf, by simpa using List.find?_some hf⟩
  · rintro ⟨he, rfl⟩
    cases hf : s.stored.find? fun f => f.id == e.id with
    | none => simpa using List.find?_eq_none.mp hf e he
    | some f =>
      have hid : f.id = e.id := by simpa using List.find?_some hf
      rw [h.eq_of_id_eq (List.mem_of_find?_eq_some hf) he hid]

end IsWellFormed

theorem claimFirst_fst (claimer : NodeId) (owner : Option NodeId) (now : Timestamp) (count : Nat)
    (es : List Entry) :
    (claimFirst claimer owner now count es).1 =
      ((es.filter (isWanted owner now)).take count).map (·.claimedBy claimer now) := by
  fun_induction claimFirst claimer owner now count es with
  | case1 es => simp
  | case2 n => simp
  | case3 n e es hw e' claimed rest hr ih =>
    rw [hr] at ih
    simpa [List.filter_cons, hw, e'] using ih
  | case4 n e es hw claimed rest hr ih =>
    rw [hr] at ih
    simpa [List.filter_cons, hw] using ih

/-- A claim changes the entries that it takes and keeps all others in place. -/
theorem claimFirst_snd (claimer : NodeId) (owner : Option NodeId) (now : Timestamp) (count : Nat)
    (es : List Entry) (hn : es.Nodup) :
    (claimFirst claimer owner now count es).2 =
      es.map fun e => if e ∈ (es.filter (isWanted owner now)).take count
        then e.claimedBy claimer now else e := by
  fun_induction claimFirst claimer owner now count es with
  | case1 es => simp
  | case2 n => simp
  | case3 n e es hw e' claimed rest hr ih =>
    obtain ⟨he, hn⟩ := List.nodup_cons.mp hn
    have ih := ih hn
    rw [hr] at ih
    simp only [List.filter_cons, hw, ↓reduceIte, List.take_succ_cons, List.map_cons,
      List.mem_cons, true_or, List.cons.injEq, true_and, e']
    refine ih.trans ?_
    refine List.map_congr_left fun f hf => ?_
    have hne : f ≠ e := fun h => he (h ▸ hf)
    simp only [hne, false_or]
  | case4 n e es hw claimed rest hr ih =>
    obtain ⟨he, hn⟩ := List.nodup_cons.mp hn
    have ih := ih hn
    rw [hr] at ih
    have hout : e ∉ (es.filter (isWanted owner now)).take (n + 1) := fun h =>
      he (List.mem_of_mem_filter (List.mem_of_mem_take h))
    simp only [List.filter_cons, hw, Bool.false_eq_true, ↓reduceIte, List.map_cons, hout,
      List.cons.injEq, true_and]
    exact ih

theorem ids_claimFirst (claimer : NodeId) (owner : Option NodeId) (now : Timestamp) (count : Nat)
    (es : List Entry) :
    (claimFirst claimer owner now count es).2.map Entry.id = es.map Entry.id := by
  fun_induction claimFirst claimer owner now count es with
  | case1 es => rfl
  | case2 n => rfl
  | case3 n e es hw e' claimed rest hr ih =>
    rw [hr] at ih
    simp only [List.map_cons, ih]
    rfl
  | case4 n e es hw claimed rest hr ih =>
    rw [hr] at ih
    simp only [List.map_cons, ih]

theorem ids_map_of_id_eq {f : Entry → Entry} (es : List Entry) (hf : ∀ e ∈ es, (f e).id = e.id) :
    (es.map f).map Entry.id = es.map Entry.id := by
  rw [List.map_map]
  exact List.map_congr_left hf

theorem ids_changeWhere (s : Store) (test : Entry → Bool) {change : Entry → Entry}
    (hc : ∀ e, (change e).id = e.id) :
    (s.changeWhere test change).2.live.map Entry.id = s.live.map Entry.id := by
  refine ids_map_of_id_eq s.live fun e _ => ?_
  by_cases h : test e = true
  · simp only [h, ↓reduceIte, hc]
  · simp only [h, Bool.false_eq_true, ↓reduceIte]

theorem ids_replace (s : Store) (e : Entry) :
    (s.replace e).live.map Entry.id = s.live.map Entry.id := by
  refine ids_map_of_id_eq s.live fun old _ => ?_
  by_cases h : old.id = e.id
  · simp only [h, ↓reduceIte]
  · simp only [h, ↓reduceIte]

/-- A purge loses nothing. -/
theorem perm_stored_purged (s : Store) (p : Entry → Bool) :
    ((s.live.filter fun e => !p e) ++ (s.history ++ s.live.filter p)).Perm s.stored := by
  have hsplit : ((s.live.filter fun e => !p e) ++ s.live.filter p).Perm s.live :=
    List.perm_append_comm.trans (List.filter_append_perm p s.live)
  have hmove : ((s.live.filter fun e => !p e) ++ (s.history ++ s.live.filter p)).Perm
      ((s.live.filter fun e => !p e) ++ (s.live.filter p ++ s.history)) :=
    List.perm_append_comm.append_left _
  refine hmove.trans ?_
  rw [← List.append_assoc]
  exact hsplit.append_right _

/-- An append is made to fail, or stores its entry under the next number. -/
theorem append_cases (s : Store) (new : NewEntry) (now : Timestamp) :
    (∃ error, (s.append new now).1 = .error error) ∨
      (s.append new now).1 = .ok (.ofNew ⟨s.lastId + 1⟩ new now) ∧
        Entry.ofNew ⟨s.lastId + 1⟩ new now ∈ (s.append new now).2.stored := by
  unfold append guarded
  split
  · exact .inr ⟨rfl, by simp [stored]⟩
  · exact .inl ⟨_, rfl⟩

theorem isWellFormed_appended (h : s.IsWellFormed) (new : NewEntry) (now : Timestamp) :
    IsWellFormed { s with lastId := s.lastId + 1,
                          live := s.live ++ [.ofNew ⟨s.lastId + 1⟩ new now] } := by
  have hc := h.counted
  have hfresh : ∀ id ∈ s.stored.map Entry.id, id < (⟨s.lastId + 1⟩ : EntryId) := by
    intro id hid
    have := (h.numbered id hid).2
    rw [EntryId.lt_def]
    simp only
    omega
  have hperm : ((s.live ++ [Entry.ofNew ⟨s.lastId + 1⟩ new now]) ++ s.history).Perm
      (Entry.ofNew ⟨s.lastId + 1⟩ new now :: s.stored) := by
    rw [List.append_assoc]
    exact List.perm_middle
  have hids := hperm.map Entry.id
  constructor
  · simp only
    omega
  · simp only [List.map_append, List.map_cons, List.map_nil]
    refine List.pairwise_append.mpr ⟨h.ascending, List.pairwise_singleton _ _, ?_⟩
    intro a ha b hb
    rw [List.mem_singleton.mp hb]
    exact hfresh a (by rw [stored, List.map_append]; exact List.mem_append_left _ ha)
  · refine hids.nodup_iff.mpr ?_
    refine List.nodup_cons.mpr ⟨fun hin => ?_, h.distinct⟩
    exact EntryId.lt_irrefl _ (hfresh _ hin)
  · intro id hid
    rcases List.mem_cons.mp (hids.mem_iff.mp hid) with rfl | hid
    · simp only [Entry.ofNew]
      omega
    · have := h.numbered id hid
      simp only
      omega
  · exact h.retired

theorem isWellFormed_purged (h : s.IsWellFormed) (olderThan : Timestamp) :
    IsWellFormed { s with live := s.live.filter fun e => !isPurgeable olderThan e
                          history := s.history ++ s.live.filter (isPurgeable olderThan) } := by
  have hids := (perm_stored_purged s (isPurgeable olderThan)).map Entry.id
  constructor
  · exact h.counted
  · exact h.ascending.sublist (List.filter_sublist.map Entry.id)
  · exact hids.nodup_iff.mpr h.distinct
  · intro id hid
    exact h.numbered id (hids.mem_iff.mp hid)
  · intro e he
    rcases List.mem_append.mp he with he | he
    · exact h.retired e he
    · have hp := List.of_mem_filter he
      simp only [isPurgeable, Bool.and_eq_true] at hp
      exact hp.1

theorem isWellFormed_of_effect {op : StoreOp} {now : Timestamp} {a : Except StoreError StoreAnswer}
    (h : s.IsWellFormed) (he : Effect now s op a s') : s'.IsWellFormed := by
  cases he with
  | failed e left => exact h.of_ids rfl rfl rfl
  | read hr a left => exact h.of_ids rfl rfl rfl
  | appended new => exact isWellFormed_appended h new now
  | claimed count claimer owner => exact h.of_ids (ids_claimFirst _ _ _ _ _) rfl rfl
  | resolved found same move => exact h.of_ids (ids_replace _ _) rfl rfl
  | reaped hc => exact h.of_ids (ids_changeWhere _ _ fun _ => rfl) rfl rfl
  | released owner => exact h.of_ids (ids_changeWhere _ _ fun _ => rfl) rfl rfl
  | purged olderThan => exact isWellFormed_purged h olderThan

theorem isWellFormed_run (h : s.IsWellFormed) (ops : List (StoreOp × Timestamp)) :
    (s.run ops).2.IsWellFormed := by
  induction ops generalizing s with
  | nil => exact h
  | cons op rest ih => exact ih (isWellFormed_of_effect h (effect_apply s op.1 op.2))

end Store

end DurableQueue
