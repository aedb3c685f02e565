import DurableQueue.Proofs.Store.WellFormed

/-!
The tables of a store as ordered maps.

`Tables` files the live and the purged entries in two maps under keys of their own, and its
operations change the maps entry by entry. `agrees_run` says that a run on the maps gives the same
answers as on the lists of a `Store` and ends with the same entries, each filed under its number.
-/

namespace DurableQueue

instance : Ord EntryId := ⟨fun a b => compare a.number b.number⟩

instance : Std.TransOrd EntryId where
  eq_swap := Std.OrientedOrd.eq_swap (α := Int)
  isLE_trans {a b c} := @Std.TransCmp.isLE_trans Int compare _ a.number b.number c.number

instance : Std.LawfulEqOrd EntryId where
  compare_self {a} := @Std.ReflCmp.compare_self Int compare _ a.number
  eq_of_compare {a b} h := by
    have hnumber : a.number = b.number := @Std.LawfulEqCmp.eq_of_compare Int compare _ _ _ h
    cases a
    cases b
    exact congrArg EntryId.mk hnumber

theorem EntryId.compare_eq_lt_iff {a b : EntryId} : compare a b = .lt ↔ a < b :=
  Int.compare_eq_lt

/-- Entries by number. -/
abbrev EntryTable := Std.TreeMap EntryId Entry

/-- The live and the purged entries, each in a map. -/
structure Tables where
  lastId : Int
  live : EntryTable
  history : EntryTable
  failuresLeft : Nat

namespace Tables

def empty : Tables := ⟨0, ∅, ∅, 0⟩

/-- An answer or an error, and the tables afterwards. -/
abbrev Outcome := Except StoreError StoreAnswer × Tables

def guarded (t : Tables) (op : Tables → Outcome) : Outcome :=
  match t.failuresLeft with
  | 0 => op t
  | n + 1 => (.error .injected, { t with failuresLeft := n })

def append (t : Tables) (new : NewEntry) (now : Timestamp) : Outcome :=
  let key : EntryId := ⟨t.lastId + 1⟩
  let e := Entry.ofNew key new now
  (.ok (.entry e), { t with lastId := t.lastId + 1, live := t.live.insert key e })

/-- Changes chosen entries in place, and answers them as they are then. -/
def change (t : Tables) (chosen : List (EntryId × Entry)) (f : Entry → Entry) : Outcome :=
  (.ok (.entries (chosen.map fun p => f p.2)),
    { t with live := chosen.foldl (fun table p => table.modify p.1 f) t.live })

def claim (t : Tables) (count : Nat) (claimer : NodeId) (owner : Option NodeId) (now : Timestamp) :
    Outcome :=
  t.change ((t.live.toList.filter fun p => Store.isWanted owner now p.2).take count)
    (·.claimedBy claimer now)

def update (t : Tables) (claimed next : Entry) (now : Timestamp) : Outcome :=
  match t.live[claimed.id]? with
  | none => (.error (.noEntry claimed.id), t)
  | some stored =>
    if !Store.isSameClaim stored claimed then (.error (.modifiedConcurrently claimed.id), t)
    else if !stored.state.canMoveTo next.state then
      (.error (.invalidMove claimed.id stored.state next.state), t)
    else
      (.ok .done, { t with live := t.live.modify claimed.id fun e => Store.resolved e next now })

def reap (t : Tables) (policy : ReapPolicy) (now : Timestamp) : Outcome :=
  match policy.cutoff now with
  | .error e => (.error e, t)
  | .ok cutoff =>
    t.change (t.live.toList.filter fun p => p.2.isStaleClaim cutoff) (·.reaped policy now)

def release (t : Tables) (owner : NodeId) (now : Timestamp) : Outcome :=
  t.change (t.live.toList.filter fun p => p.2.isHeldBy owner) (·.released now)

/-- Moves the live entry of a key, if there is one, to the purged ones. -/
def retire (t : Tables) (key : EntryId) : Tables :=
  match t.live[key]? with
  | some e => { t with live := t.live.erase key, history := t.history.insert key e }
  | none => t

/-- Retires the entries that may be purged by the numbers that they carry. -/
def purge (t : Tables) (olderThan : Timestamp) : Outcome :=
  let expired := (t.live.toList.filter fun p => Store.isPurgeable olderThan p.2).map fun p => p.2.id
  (.ok (.count expired.length), expired.foldl retire t)

def lookup? (t : Tables) (id : EntryId) : Option Entry :=
  match t.live[id]? with
  | some e => some e
  | none => t.history[id]?

/-- Runs an operation at a time. -/
def apply (t : Tables) (op : StoreOp) (now : Timestamp) : Outcome :=
  match op with
  | .append new => t.guarded (·.append new now)
  | .claim count claimer owner => t.guarded (·.claim count claimer owner now)
  | .update claimed next => t.guarded (·.update claimed next now)
  | .reap policy => t.guarded (·.reap policy now)
  | .release owner => t.guarded (·.release owner now)
  | .count state =>
    t.guarded fun t => (.ok (.count (t.live.toList.countP fun p => p.2.state == state)), t)
  | .find id => t.guarded fun t => (.ok (.found (t.lookup? id)), t)
  | .search key1 key2 =>
    t.guarded fun t =>
      (.ok (.entries ((t.live.toList.map Prod.snd).filter (·.carries key1 key2))), t)
  | .purge olderThan => t.guarded (·.purge olderThan)
  | .failNext count => (.ok .done, { t with failuresLeft := count })

/-- Runs operations one after the other, each at its own time. -/
def run (t : Tables) : List (StoreOp × Timestamp) → List (Except StoreError StoreAnswer) × Tables
  | [] => ([], t)
  | (op, now) :: rest =>
    let (answer, t) := t.apply op now
    let (answers, t) := t.run rest
    (answer :: answers, t)

/-- A map files the entries of a list, each under its number. -/
def Filed (table : EntryTable) (es : List Entry) : Prop :=
  ∀ key e, table[key]? = some e ↔ e ∈ es ∧ e.id = key

/-- The maps file the entries of a store. -/
structure Files (t : Tables) (s : Store) : Prop where
  lastId : t.lastId = s.lastId
  live : Filed t.live s.live
  history : Filed t.history s.history
  failuresLeft : t.failuresLeft = s.failuresLeft

namespace Filed

variable {table : EntryTable} {es es' : List Entry} {key : EntryId} {e : Entry}

theorem mem_toList_iff (h : Filed table es) {p : EntryId × Entry} :
    p ∈ table.toList ↔ p.2 ∈ es ∧ p.2.id = p.1 := by
  rw [← h p.1 p.2]
  exact Std.TreeMap.mem_toList_iff_getElem?_eq_some

theorem perm (h : Filed table es) (hn : (es.map Entry.id).Nodup) :
    table.toList.Perm (es.map fun e => (e.id, e)) := by
  refine (List.perm_ext_iff_of_nodup ?_ ?_).mpr fun p => ?_
  · refine Std.TreeMap.distinct_keys_toList.imp fun hne heq => hne ?_
    rw [heq]
    exact Std.ReflCmp.compare_self
  · exact (hn.of_map _).map fun a b hab => (Prod.mk.inj hab).2
  · rw [h.mem_toList_iff, List.mem_map]
    constructor
    · rintro ⟨hp, hid⟩
      exact ⟨p.2, hp, by rw [hid]⟩
    · rintro ⟨e, he, rfl⟩
      exact ⟨he, rfl⟩

/-- A map whose entries ascend by number lists them in this order. -/
theorem toList_eq (h : Filed table es) (hs : (es.map Entry.id).Pairwise (· < ·)) :
    table.toList = es.map fun e => (e.id, e) := by
  have hn := EntryId.nodup_of_pairwise_lt hs
  have hlist : table.toList.Pairwise fun a b => a.1 < b.1 :=
    Std.TreeMap.ordered_keys_toList.imp EntryId.compare_eq_lt_iff.mp
  have hentries : (es.map fun e => (e.id, e)).Pairwise fun a b => a.1 < b.1 := by
    rw [List.pairwise_map] at hs ⊢
    exact hs
  refine (h.perm hn).eq_of_pairwise ?_ hlist hentries
  intro a b _ _ hab hba
  exact absurd hab (Int.lt_asymm hba)

theorem getElem?_eq_find? (h : Filed table es) (key : EntryId) :
    table[key]? = es.find? fun e => e.id == key := by
  cases hfind : es.find? fun e => e.id == key with
  | none =>
    rw [Option.eq_none_iff_forall_ne_some]
    intro e he
    obtain ⟨hmem, rfl⟩ := (h key e).mp he
    simpa using List.find?_eq_none.mp hfind e hmem
  | some e =>
    exact (h key e).mpr ⟨List.mem_of_find?_eq_some hfind, by simpa using List.find?_some hfind⟩

theorem insert (h : Filed table es) (hfresh : ∀ f ∈ es, f.id ≠ e.id) :
    Filed (table.insert e.id e) (es ++ [e]) := by
  intro key f
  rw [Std.TreeMap.getElem?_insert, List.mem_append, List.mem_singleton]
  split
  · rename_i hkey
    rw [Std.LawfulEqCmp.compare_eq_iff_eq] at hkey
    subst hkey
    constructor
    · rintro ⟨⟩
      exact ⟨.inr rfl, rfl⟩
    · rintro ⟨hf | rfl, hid⟩
      · exact absurd hid (hfresh f hf)
      · rfl
  · rename_i hkey
    rw [Std.LawfulEqCmp.compare_eq_iff_eq] at hkey
    rw [h key f]
    constructor
    · rintro ⟨hf, hid⟩
      exact ⟨.inl hf, hid⟩
    · rintro ⟨hf | rfl, hid⟩
      · exact ⟨hf, hid⟩
      · exact absurd hid hkey

/-- Changing the entries of distinct keys one after the other changes each of them once. -/
theorem getElem?_foldl_modify (chosen : List (EntryId × Entry)) (f : Entry → Entry)
    (table : EntryTable) (hn : (chosen.map Prod.fst).Nodup) (key : EntryId) :
    (chosen.foldl (fun table p => table.modify p.1 f) table)[key]? =
      if key ∈ chosen.map Prod.fst then table[key]?.map f else table[key]? := by
  induction chosen generalizing table with
  | nil => simp
  | cons p rest ih =>
    obtain ⟨hp, hn⟩ := List.nodup_cons.mp hn
    rw [List.foldl_cons, ih _ hn, Std.TreeMap.getElem?_modify]
    by_cases hkey : p.1 = key
    · subst hkey
      simp [hp]
    · have hcmp : compare p.1 key ≠ .eq := fun heq =>
        hkey (Std.LawfulEqCmp.compare_eq_iff_eq.mp heq)
      simp only [hcmp, ↓reduceIte, List.map_cons, List.mem_cons, Ne.symm hkey, false_or]

/-- Changing chosen entries in a map is changing them in the list. -/
theorem change (h : Filed table es) (hn : (es.map Entry.id).Nodup) {chosen : List Entry}
    (hsub : chosen.Sublist es) {f : Entry → Entry} (hid : ∀ e, (f e).id = e.id) :
    Filed ((chosen.map fun e => (e.id, e)).foldl (fun table p => table.modify p.1 f) table)
      (es.map fun e => if e ∈ chosen then f e else e) := by
  have hkeys : (chosen.map fun e => (e.id, e)).map Prod.fst = chosen.map Entry.id := by
    rw [List.map_map]
    rfl
  have hchosen : ∀ e ∈ es, e.id ∈ chosen.map Entry.id ↔ e ∈ chosen := by
    intro e he
    refine ⟨fun hin => ?_, fun hin => List.mem_map_of_mem hin⟩
    obtain ⟨g, hg, hgid⟩ := List.mem_map.mp hin
    rwa [List.inj_on_of_nodup_map hn (hsub.subset hg) he hgid] at hg
  intro key e
  rw [getElem?_foldl_modify _ _ _ (hkeys ▸ (hsub.map Entry.id).nodup hn)]
  simp only [hkeys]
  constructor
  · intro hget
    split at hget
    · rename_i hin
      obtain ⟨g, hg, rfl⟩ := Option.map_eq_some_iff.mp hget
      obtain ⟨hmem, rfl⟩ := (h key g).mp hg
      exact ⟨List.mem_map.mpr ⟨g, hmem, if_pos ((hchosen g hmem).mp hin)⟩, hid g⟩
    · rename_i hin
      obtain ⟨hmem, rfl⟩ := (h key e).mp hget
      exact ⟨List.mem_map.mpr ⟨e, hmem, if_neg fun hc => hin ((hchosen e hmem).mpr hc)⟩, rfl⟩
  · rintro ⟨hin, rfl⟩
    obtain ⟨g, hmem, rfl⟩ := List.mem_map.mp hin
    have hget : table[g.id]? = some g := (h g.id g).mpr ⟨hmem, rfl⟩
    by_cases hin : g ∈ chosen
    · simp only [hin, ↓reduceIte, hid, (hchosen g hmem).mpr hin, hget, Option.map_some]
    · have hout : g.id ∉ chosen.map Entry.id := fun hc => hin ((hchosen g hmem).mp hc)
      simp only [hin, ↓reduceIte, hout, hget]

end Filed

@[simp] theorem lastId_retire (t : Tables) (key : EntryId) : (t.retire key).lastId = t.lastId := by
  unfold retire
  split <;> rfl

@[simp] theorem failuresLeft_retire (t : Tables) (key : EntryId) :
    (t.retire key).failuresLeft = t.failuresLeft := by
  unfold retire
  split <;> rfl

theorem getElem?_live_retire (t : Tables) (key k : EntryId) :
    (t.retire key).live[k]? = if key = k then none else t.live[k]? := by
  unfold retire
  by_cases hk : key = k
  · subst hk
    split
    · simp
    · rename_i hnone
      simpa using hnone
  · have hcmp : compare key k ≠ .eq := fun heq => hk (Std.LawfulEqCmp.compare_eq_iff_eq.mp heq)
    split
    · simp [Std.TreeMap.getElem?_erase, hcmp, hk]
    · simp [hk]

theorem getElem?_history_retire (t : Tables) (key k : EntryId) :
    (t.retire key).history[k]? =
      if key = k then t.live[k]?.or t.history[k]? else t.history[k]? := by
  unfold retire
  by_cases hk : key = k
  · subst hk
    split
    · rename_i e he
      simp [he]
    · rename_i hnone
      simp [hnone]
  · have hcmp : compare key k ≠ .eq := fun heq => hk (Std.LawfulEqCmp.compare_eq_iff_eq.mp heq)
    split
    · simp [Std.TreeMap.getElem?_insert, hcmp, hk]
    · simp [hk]

/-- What retiring the entries of some keys one after the other comes to. -/
structure Retired (keys : List EntryId) (t t' : Tables) : Prop where
  lastId : t'.lastId = t.lastId
  live : ∀ k : EntryId, t'.live[k]? = if k ∈ keys then none else t.live[k]?
  history : ∀ k : EntryId,
    t'.history[k]? = if k ∈ keys then t.live[k]?.or t.history[k]? else t.history[k]?
  failuresLeft : t'.failuresLeft = t.failuresLeft

theorem retired_foldl (keys : List EntryId) (t : Tables) : Retired keys t (keys.foldl retire t) := by
  induction keys generalizing t with
  | nil => exact ⟨rfl, fun k => by simp, fun k => by simp, rfl⟩
  | cons key rest ih =>
    have h := ih (t.retire key)
    refine ⟨by simpa using h.lastId, fun k => ?_, fun k => ?_, by simpa using h.failuresLeft⟩
    · simp only [List.foldl_cons, h.live, getElem?_live_retire, List.mem_cons]
      grind
    · simp only [List.foldl_cons, h.history, getElem?_live_retire, getElem?_history_retire,
        List.mem_cons]
      grind

/-- The same answer, and afterwards the same entries. -/
structure Agrees (o : Outcome) (o' : Store.Outcome StoreAnswer) : Prop where
  answer : o.1 = o'.1
  files : Files o.2 o'.2

variable {t : Tables} {s : Store}

theorem files_empty : Files empty Store.empty where
  lastId := rfl
  live key e := by simp [empty, Store.empty]
  history key e := by simp [empty, Store.empty]
  failuresLeft := rfl

theorem agrees_guarded {α : Type} (f : α → StoreAnswer) (op : Tables → Outcome)
    (run : Store → Store.Outcome α) (h : Files t s) (hrun : Agrees (op t) ((run s).map f)) :
    Agrees (t.guarded op) ((s.guarded run).map f) := by
  unfold guarded Store.guarded
  rw [h.failuresLeft]
  cases s.failuresLeft with
  | zero => exact hrun
  | succ n => exact ⟨rfl, ⟨h.lastId, h.live, h.history, rfl⟩⟩

namespace Files

/-- The entries of a map that pass a test, in order. -/
theorem filter_toList (h : Files t s) (hs : s.IsWellFormed) (test : Entry → Bool) :
    (t.live.toList.filter fun p => test p.2) = (s.live.filter test).map fun e => (e.id, e) := by
  rw [h.live.toList_eq hs.ascending, List.filter_map]
  rfl

theorem lookup?_eq (h : Files t s) (id : EntryId) : t.lookup? id = s.lookup? id := by
  have hlive := h.live.getElem?_eq_find? id
  have hhistory := h.history.getElem?_eq_find? id
  cases hfind : s.live.find? fun e => e.id == id with
  | none => simp only [lookup?, Store.lookup?, Store.liveEntry?, hlive, hhistory, hfind]
  | some e => simp only [lookup?, Store.lookup?, Store.liveEntry?, hlive, hfind]

theorem agrees_append (h : Files t s) (hs : s.IsWellFormed) (new : NewEntry) (now : Timestamp) :
    Agrees (t.apply (.append new) now) (s.apply (.append new) now) := by
  refine agrees_guarded .entry (·.append new now) _ h ?_
  have hfresh : ∀ f ∈ s.live, f.id ≠ (Entry.ofNew ⟨s.lastId + 1⟩ new now).id := by
    intro f hf heq
    have hle := (hs.numbered f.id (List.mem_map_of_mem (List.mem_append_left _ hf))).2
    rw [heq] at hle
    simp only [Entry.ofNew] at hle
    omega
  refine ⟨?_, ?_, ?_, h.history, h.failuresLeft⟩
  · simp only [append, h.lastId, Store.Outcome.map]
  · simp only [append, h.lastId, Store.Outcome.map]
  · simp only [append, h.lastId, Store.Outcome.map]
    exact h.live.insert hfresh

theorem agrees_change (h : Files t s) (hs : s.IsWellFormed) {chosen es live : List Entry}
    (hsub : chosen.Sublist s.live) {f : Entry → Entry} (hid : ∀ e, (f e).id = e.id)
    (hes : es = chosen.map f) (hlive : live = s.live.map fun e => if e ∈ chosen then f e else e) :
    Agrees (t.change (chosen.map fun e => (e.id, e)) f) (.ok (.entries es), { s with live }) := by
  subst hes hlive
  refine ⟨?_, h.lastId, h.live.change hs.nodup_ids_live hsub hid, h.history, h.failuresLeft⟩
  simp only [Tables.change, List.map_map]
  rfl

theorem agrees_claim (h : Files t s) (hs : s.IsWellFormed) (count : Nat) (claimer : NodeId)
    (owner : Option NodeId) (now : Timestamp) :
    Agrees (t.apply (.claim count claimer owner) now) (s.apply (.claim count claimer owner) now) := by
  refine agrees_guarded .entries (·.claim count claimer owner now) _ h ?_
  unfold Tables.claim
  rw [h.filter_toList hs, ← List.map_take]
  exact h.agrees_change hs ((List.take_sublist _ _).trans List.filter_sublist) (fun _ => rfl)
    (Store.claimFirst_fst _ _ _ _ _) (Store.claimFirst_snd _ _ _ _ _ hs.nodup_live)

/-- The operations that change every live entry passing a test. -/
theorem agrees_changeWhere (h : Files t s) (hs : s.IsWellFormed) (test : Entry → Bool)
    {f : Entry → Entry} (hid : ∀ e, (f e).id = e.id) :
    Agrees (t.change (t.live.toList.filter fun p => test p.2) f)
      (.ok (.entries (s.changeWhere test f).1), (s.changeWhere test f).2) := by
  rw [h.filter_toList hs]
  refine h.agrees_change hs List.filter_sublist hid rfl ?_
  refine List.map_congr_left fun e he => ?_
  simp only [List.mem_filter, he, true_and]

theorem agrees_reap (h : Files t s) (hs : s.IsWellFormed) (policy : ReapPolicy) (now : Timestamp) :
    Agrees (t.apply (.reap policy) now) (s.apply (.reap policy) now) := by
  refine agrees_guarded .entries (·.reap policy now) _ h ?_
  unfold Tables.reap
  cases hc : policy.cutoff now with
  | error e => exact ⟨rfl, h⟩
  | ok cutoff => exact h.agrees_changeWhere hs (·.isStaleClaim cutoff) fun _ => rfl

theorem agrees_release (h : Files t s) (hs : s.IsWellFormed) (owner : NodeId) (now : Timestamp) :
    Agrees (t.apply (.release owner) now) (s.apply (.release owner) now) :=
  agrees_guarded .entries (·.release owner now) _ h (h.agrees_changeWhere hs (·.isHeldBy owner) (f := (·.released now)) fun _ => rfl)

/-- A resolved claim takes the place of the entry under its key. -/
theorem filed_replace (h : Files t s) (hs : s.IsWellFormed) {old : Entry} (hold : old ∈ s.live)
    (next : Entry) (now : Timestamp) :
    Filed (t.live.modify old.id fun e => Store.resolved e next now)
      (s.replace (Store.resolved old next now)).live := by
  have hchange := h.live.change hs.nodup_ids_live (List.singleton_sublist.mpr hold)
    (f := fun e => Store.resolved e next now) fun _ => rfl
  have hlive : (s.live.map fun e => if e ∈ [old] then Store.resolved e next now else e) =
      (s.replace (Store.resolved old next now)).live := by
    refine List.map_congr_left fun e he => ?_
    have hiff : e.id = (Store.resolved old next now).id ↔ e = old :=
      ⟨fun hid => hs.eq_of_id_eq (List.mem_append_left _ he) (List.mem_append_left _ hold) hid,
        fun heq => heq ▸ rfl⟩
    by_cases heq : e = old
    · subst heq
      simp [hiff]
    · simp [hiff, heq]
  rw [← hlive]
  exact hchange

theorem agrees_update (h : Files t s) (hs : s.IsWellFormed) (claimed next : Entry)
    (now : Timestamp) :
    Agrees (t.apply (.update claimed next) now) (s.apply (.update claimed next) now) := by
  refine agrees_guarded (fun _ => .done) (·.update claimed next now) _ h ?_
  unfold Tables.update
  rw [h.live.getElem?_eq_find?, ← Store.liveEntry?]
  cases hfind : s.liveEntry? claimed.id with
  | none => exact ⟨rfl, h⟩
  | some old =>
    simp only
    have hid : old.id = claimed.id := by simpa using List.find?_some hfind
    split
    · exact ⟨rfl, h⟩
    · split
      · exact ⟨rfl, h⟩
      · refine ⟨rfl, h.lastId, ?_, h.history, h.failuresLeft⟩
        rw [← hid]
        exact h.filed_replace hs (List.mem_of_find?_eq_some hfind) next now

/-- A live entry is one of those that pass a test exactly if its number is one of theirs. -/
theorem mem_ids_filter_iff (hs : s.IsWellFormed) (p : Entry → Bool) {e : Entry} (he : e ∈ s.live) :
    e.id ∈ (s.live.filter p).map Entry.id ↔ p e = true := by
  constructor
  · intro hin
    obtain ⟨f, hf, hid⟩ := List.mem_map.mp hin
    obtain ⟨hf, hp⟩ := List.mem_filter.mp hf
    rwa [← hs.eq_of_id_eq (List.mem_append_left _ hf) (List.mem_append_left _ he) hid]
  · intro hp
    exact List.mem_map_of_mem (List.mem_filter.mpr ⟨he, hp⟩)

theorem filed_live_of_retired (h : Files t s) (hs : s.IsWellFormed) {p : Entry → Bool} {t' : Tables}
    (hretired : Retired ((s.live.filter p).map Entry.id) t t') :
    Filed t'.live (s.live.filter fun e => !p e) := by
  intro key e
  rw [hretired.live, List.mem_filter, Bool.not_eq_true']
  constructor
  · intro hget
    split at hget
    · cases hget
    · rename_i hout
      obtain ⟨he, rfl⟩ := (h.live key e).mp hget
      rw [mem_ids_filter_iff hs p he, Bool.not_eq_true] at hout
      exact ⟨⟨he, hout⟩, rfl⟩
  · rintro ⟨⟨he, hp⟩, rfl⟩
    have hout : e.id ∉ (s.live.filter p).map Entry.id := by
      rw [mem_ids_filter_iff hs p he, hp]
      exact Bool.false_ne_true
    rw [if_neg hout]
    exact (h.live e.id e).mpr ⟨he, rfl⟩

theorem filed_history_of_retired (h : Files t s) (hs : s.IsWellFormed) {p : Entry → Bool}
    {t' : Tables} (hretired : Retired ((s.live.filter p).map Entry.id) t t') :
    Filed t'.history (s.history ++ s.live.filter p) := by
  have hlive : ∀ e ∈ s.live.filter p, t.live[e.id]? = some e := fun e he =>
    (h.live e.id e).mpr ⟨List.mem_of_mem_filter he, rfl⟩
  intro key e
  rw [hretired.history, List.mem_append]
  constructor
  · intro hget
    split at hget
    · rename_i hin
      obtain ⟨f, hf, rfl⟩ := List.mem_map.mp hin
      rw [hlive f hf, Option.some_or] at hget
      cases hget
      exact ⟨.inr hf, rfl⟩
    · obtain ⟨he, rfl⟩ := (h.history key e).mp hget
      exact ⟨.inl he, rfl⟩
  · rintro ⟨he | he, rfl⟩
    · have hout : e.id ∉ (s.live.filter p).map Entry.id := by
        intro hin
        obtain ⟨f, hf, hid⟩ := List.mem_map.mp hin
        exact hs.id_ne_of_mem (List.mem_of_mem_filter hf) he hid
      rw [if_neg hout]
      exact (h.history e.id e).mpr ⟨he, rfl⟩
    · rw [if_pos (List.mem_map_of_mem he), hlive e he, Option.some_or]

theorem agrees_purge (h : Files t s) (hs : s.IsWellFormed) (olderThan now : Timestamp) :
    Agrees (t.apply (.purge olderThan) now) (s.apply (.purge olderThan) now) := by
  refine agrees_guarded .count (·.purge olderThan) _ h ?_
  have hkeys : ((t.live.toList.filter fun p => Store.isPurgeable olderThan p.2).map fun p => p.2.id) =
      (s.live.filter (Store.isPurgeable olderThan)).map Entry.id := by
    rw [h.filter_toList hs, List.map_map]
    rfl
  have hretired := retired_foldl ((s.live.filter (Store.isPurgeable olderThan)).map Entry.id) t
  unfold Tables.purge
  rw [hkeys]
  refine ⟨?_, hretired.lastId.trans h.lastId, h.filed_live_of_retired hs hretired,
    h.filed_history_of_retired hs hretired, hretired.failuresLeft.trans h.failuresLeft⟩
  simp only [List.length_map]
  rfl

theorem agrees_apply (h : Files t s) (hs : s.IsWellFormed) (op : StoreOp) (now : Timestamp) :
    Agrees (t.apply op now) (s.apply op now) := by
  cases op with
  | append new => exact h.agrees_append hs new now
  | claim count claimer owner => exact h.agrees_claim hs count claimer owner now
  | update claimed next => exact h.agrees_update hs claimed next now
  | reap policy => exact h.agrees_reap hs policy now
  | release owner => exact h.agrees_release hs owner now
  | count state =>
    refine agrees_guarded .count _ (fun s => (.ok (s.live.countP fun e => e.state == state), s)) h ?_
    refine ⟨?_, h⟩
    rw [h.live.toList_eq hs.ascending, List.countP_map]
    rfl
  | find id =>
    refine agrees_guarded .found _ (fun s => (.ok (s.lookup? id), s)) h ?_
    refine ⟨?_, h⟩
    rw [h.lookup?_eq]
    rfl
  | search key1 key2 =>
    refine agrees_guarded .entries _ (fun s => (.ok (s.live.filter (·.carries key1 key2)), s)) h ?_
    refine ⟨?_, h⟩
    rw [h.live.toList_eq hs.ascending, List.map_map]
    simp [Store.Outcome.map, Function.comp_def]
  | purge olderThan => exact h.agrees_purge hs olderThan now
  | failNext count => exact ⟨rfl, h.lastId, h.live, h.history, rfl⟩

end Files

/-- A run on the maps is a run on the lists. -/
theorem agrees_run (h : Files t s) (hs : s.IsWellFormed) (ops : List (StoreOp × Timestamp)) :
    (t.run ops).1 = (s.run ops).1 ∧ Files (t.run ops).2 (s.run ops).2 := by
  induction ops generalizing t s with
  | nil => exact ⟨rfl, h⟩
  | cons op rest ih =>
    have happly := h.agrees_apply hs op.1 op.2
    obtain ⟨hanswers, hfiles⟩ :=
      ih happly.files (Store.isWellFormed_of_effect hs (Store.effect_apply s op.1 op.2))
    refine ⟨?_, hfiles⟩
    exact congrArg₂ List.cons happly.answer hanswers

end Tables

end DurableQueue
