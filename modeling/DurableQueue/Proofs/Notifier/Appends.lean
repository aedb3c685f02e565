import DurableQueue.Proofs.Notifier.AppendRun
import DurableQueue.Proofs.Notifier.Delivery
import DurableQueue.Proofs.Store.Chronology

/-!
Appends and announcements correspond one to one.

What a subscription has queued or put out was announced (`Board.IsTraced`), and what is announced is the
commit of an append whose entry is stored (`AnnouncedStore.IsKept`). Whatever other clients do to an
entry before it is announced, it keeps its number and its creator and stays stored, live or purged, so
whoever is told of it can look it up: `appends_announced`.
-/

namespace DurableQueue

open BoardEvent

namespace Notifier

variable {n : Notifier} {extra : List TransactionEvent}

theorem queued_changeSubscription_subset {f : Subscription → Subscription}
    (hf : ∀ s, (f s).queue ⊆ s.queue ++ extra) (id id' : SubscriptionId) :
    (n.changeSubscription id f).queued id' ⊆ n.queued id' ++ extra := by
  by_cases hid : id = id'
  · subst hid
    rw [queued, queued, changeSubscription_self]
    cases n.subscriptions[id]? with
    | none => exact List.nil_subset _
    | some s => exact hf s
  · rw [queued_changeSubscription_of_ne hid]
    exact List.subset_append_left _ _

theorem queued_send_subset (id id' : SubscriptionId) (e : TransactionEvent) :
    (n.send id e).queued id' ⊆ n.queued id' ++ [e] := by
  refine queued_changeSubscription_subset (fun s => ?_) id id'
  cases s.isOpen with
  | true => exact List.Subset.refl _
  | false => exact List.subset_append_left _ _

/-- Nobody finds anything in a queue because of what a callback does. -/
theorem queued_react_subset (r : Reaction) (id : SubscriptionId) :
    (n.react r).queued id ⊆ n.queued id ++ [] := by
  rw [List.append_nil]
  cases r with
  | onCommit c => exact List.Subset.refl _
  | onRollback c => exact List.Subset.refl _
  | subscribe =>
    by_cases hid : id = n.subscriptions.length
    · subst hid
      rw [react, queued_subscribe_self]
      exact List.nil_subset _
    · rw [react, queued_subscribe hid]
      exact List.Subset.refl _

end Notifier

namespace Board

/-- What subscriptions have queued, or took, was announced. -/
structure IsTraced (b : Board) (log : List BoardEvent) : Prop where
  queued : ∀ id, ∀ f ∈ b.notifier.queued id, ∃ i, .begun i f ∈ log
  taken : ∀ id es, .taken id es ∈ log → ∀ f ∈ es, ∃ i, .begun i f ∈ log

namespace IsTraced

variable {b b' : Board} {n n' : Notifier} {fs fs' : List Firing} {log more : List BoardEvent}
  {extra : List TransactionEvent}

theorem empty : IsTraced .empty [] where
  queued _ _ hf := by cases hf
  taken _ _ hes := by cases hes

/-- Queues get commits that are announced, and what is taken was queued. -/
theorem advance (h : IsTraced ⟨n, fs⟩ log) (hqueued : ∀ id, n'.queued id ⊆ n.queued id ++ extra)
    (hextra : ∀ f ∈ extra, ∃ i, .begun i f ∈ log)
    (htaken : ∀ id es, .taken id es ∈ more → es ⊆ n.queued id) : IsTraced ⟨n', fs'⟩ (log ++ more) where
  queued id f hf := by
    rcases List.mem_append.mp (hqueued id hf) with hf | hf
    · obtain ⟨i, hi⟩ := h.queued id f hf
      exact ⟨i, List.mem_append_left _ hi⟩
    · obtain ⟨i, hi⟩ := hextra f hf
      exact ⟨i, List.mem_append_left _ hi⟩
  taken id es hes f hf := by
    rcases List.mem_append.mp hes with hes | hes
    · obtain ⟨i, hi⟩ := h.taken id es hes f hf
      exact ⟨i, List.mem_append_left _ hi⟩
    · obtain ⟨i, hi⟩ := h.queued id f (htaken id es hes hf)
      exact ⟨i, List.mem_append_left _ hi⟩

/-- A step of an announcement that touches no queue. -/
theorem frame (h : IsTraced ⟨n, fs⟩ log) (htaken : ∀ id es, .taken id es ∉ more) :
    IsTraced ⟨n, fs'⟩ (log ++ more) :=
  h.advance (fun _ => List.subset_append_left _ _) (fun _ (hf : _ ∈ []) => by cases hf)
    fun id es hes => absurd hes (htaken id es)

theorem reacted (h : IsTraced ⟨n, fs⟩ log) (r : Reaction) :
    IsTraced ⟨n.react r, fs'⟩ (log ++ r.tells n) := by
  refine h.advance (n.queued_react_subset r) (fun _ hf => by cases hf) fun id es hes => ?_
  cases r with
  | onCommit c => cases List.mem_singleton.mp hes
  | onRollback c => cases List.mem_singleton.mp hes
  | subscribe => cases List.mem_singleton.mp hes

/-- What a subscriber takes was in its queue, which has only the rest afterwards. -/
theorem took (h : IsTraced ⟨n, fs⟩ log) (id : SubscriptionId) {f : Subscription → Subscription}
    {es : List TransactionEvent} (hf : ∀ s, (f s).queue ⊆ s.queue) (hes : es ⊆ n.queued id) :
    IsTraced ⟨n.changeSubscription id f, fs⟩ (log ++ [.taken id es]) := by
  refine h.advance (Notifier.queued_changeSubscription_subset (fun s => ?_) id)
    (fun _ (hf : _ ∈ []) => by cases hf) fun id' es' hes' => ?_
  · rw [List.append_nil]
    exact hf s
  · cases List.mem_singleton.mp hes'
    exact hes

theorem turn (hturn : Turn b more b') (hb : IsFaithful b log) (h : IsTraced b log) :
    IsTraced b' (log ++ more) := by
  cases hturn with
  | idle =>
    rw [List.append_nil]
    exact h
  | begun n fs e => exact h.frame fun id es hes => by cases List.mem_singleton.mp hes
  | reacted n fs r => exact h.reacted r
  | answered n hi => exact h.reacted _
  | called n hi => exact h.frame fun id es hes => by cases List.mem_singleton.mp hes
  | noted n hi hcommit => exact h.frame fun id es hes => by cases hes
  | sent n hi =>
    rename_i fs i e id rest
    refine h.advance (Notifier.queued_send_subset id · e) (fun f hf => ⟨i, ?_⟩) fun id es hes => ?_
    · rw [List.mem_singleton.mp hf]
      exact ((hb.told i _ hi).begun e).mpr rfl
    · cases List.mem_singleton.mp hes
  | ended n hi => exact h.frame fun id es hes => by cases List.mem_singleton.mp hes
  | received n fs id =>
    refine h.took id (fun s => (List.tail_sublist s.queue).subset) fun f hf => ?_
    exact List.mem_of_mem_head? (Option.mem_toList.mp hf)
  | drained n fs id => exact h.took id (fun s => List.nil_subset _) (List.Subset.refl _)
  | closed n fs id =>
    refine h.advance (Notifier.queued_changeSubscription_subset (fun s => List.nil_subset _) id)
      (fun _ (hf : _ ∈ []) => by cases hf) fun id' es hes => ?_
    split at hes
    · cases List.mem_singleton.mp hes
    · cases hes

end IsTraced

/-- Nothing but `fire` begins an announcement. -/
theorem begun_of_tells {b : Board} {x : NotifierAction} {i : Nat} {f : TransactionEvent}
    (h : .begun i f ∈ b.tells x) : x = .fire f ∧ i = b.firings.length := by
  have hreaction : ∀ r : Reaction, .begun i f ∉ r.tells b.notifier := by
    intro r hr
    cases r <;> cases List.mem_singleton.mp hr
  cases x with
  | fire e =>
    cases List.mem_singleton.mp h
    exact ⟨rfl, rfl⟩
  | proceed j =>
    simp only [tells] at h
    split at h
    · rename_i g hg
      unfold Firing.tells at h
      split at h
      · exact absurd h (hreaction _)
      · cases List.mem_singleton.mp h
      · split at h
        · cases h
        · cases List.mem_singleton.mp h
      · cases List.mem_singleton.mp h
      · cases List.mem_singleton.mp h
      · cases h
    · cases h
  | react r => exact absurd h (hreaction r)
  | receive id => cases List.mem_singleton.mp h
  | drain id => cases List.mem_singleton.mp h
  | unsubscribe id =>
    simp only [tells] at h
    split at h
    · cases List.mem_singleton.mp h
    · cases h

end Board

namespace Store

/-- An entry is stored under its number and with its creator, perhaps changed otherwise. -/
def Holds (s : Store) (e : Entry) : Prop :=
  ∃ e' ∈ s.stored, e'.id = e.id ∧ e'.creatingOwner = e.creatingOwner

variable {s : Store} {e : Entry}

theorem Holds.apply (h : s.IsWellFormed) (hold : s.Holds e) (op : StoreOp) (now : Timestamp) :
    (s.apply op now).2.Holds e := by
  obtain ⟨e', he', hid, howner⟩ := hold
  obtain ⟨e'', he'', hfate⟩ := exists_fate h (effect_apply s op now) he'
  exact ⟨e'', he'', hfate.evolves.id.trans hid, hfate.evolves.creatingOwner.trans howner⟩

theorem Holds.ne_new (h : s.IsWellFormed) (hold : s.Holds e) : e.id ≠ ⟨s.lastId + 1⟩ := by
  obtain ⟨e', he', hid, -⟩ := hold
  intro hnew
  have hle := (h.numbered e'.id (List.mem_map_of_mem he')).2
  rw [hid, hnew] at hle
  simp only at hle
  omega

end Store

namespace AnnouncedStore

open Board

/-- The entries that appends have inserted. -/
def inserted (s : AnnouncedStore) : List Entry := s.appends.filterMap AppendCall.entry?

/-- Appends, announcements and the store go together. -/
structure IsKept (asked : List (NewEntry × Timestamp)) (s : AnnouncedStore) (log : List BoardEvent) :
    Prop where
  wellFormed : s.store.IsWellFormed
  faithful : IsFaithful s.board log
  traced : IsTraced s.board log
  calls : List.Forall₂ AppendCall.IsOf asked s.appends
  stored : ∀ e ∈ s.inserted, s.store.Holds e
  distinct : (s.inserted.map Entry.id).Nodup
  announced : (announced log).Perm (s.appends.filterMap AppendCall.announced?)
  finished : ∀ (c i : Nat) (e : Entry), s.appends[c]? = some (.returned e i) → .ended i ∈ log

variable {s : AnnouncedStore} {asked : List (NewEntry × Timestamp)} {log more : List BoardEvent} {c i : Nat}
  {e : Entry} {call call' : AppendCall}

/-- A call stays one of what it was asked to append. -/
theorem calls_set (h : List.Forall₂ AppendCall.IsOf asked s.appends) (hc : s.appends[c]? = some call)
    (hentry : call'.entry? = call.entry?) : List.Forall₂ AppendCall.IsOf asked (s.appends.set c call') := by
  have hentries : List.Forall₂ (fun a e? => ∀ e, e? = some e → ∃ id, e = Entry.ofNew id a.1 a.2) asked
      (s.appends.map AppendCall.entry?) := List.forall₂_map_right_iff.mpr h
  rw [← map_set_of_eq hc hentry, List.forall₂_map_right_iff] at hentries
  exact hentries

namespace IsKept

theorem empty : IsKept [] .empty [] where
  wellFormed := Store.isWellFormed_empty
  faithful := .empty
  traced := .empty
  calls := .nil
  stored _ h := by cases h
  distinct := .nil
  announced := .nil
  finished _ _ _ h := by cases h

/-- An operation that appends nothing. -/
theorem operated (h : s.IsKept asked log) (op : StoreOp) (now : Timestamp) :
    IsKept asked { s with store := (s.store.apply op now).2 } log where
  wellFormed := Store.isWellFormed_of_effect h.wellFormed (Store.effect_apply s.store op now)
  faithful := h.faithful
  traced := h.traced
  calls := h.calls
  stored e he := (h.stored e he).apply h.wellFormed op now
  distinct := h.distinct
  announced := h.announced
  finished := h.finished

/-- The notifier goes on, but no announcement begins. -/
theorem listened (h : s.IsKept asked log) {b : Board} (hturn : Turn s.board more b)
    (hmore : ∀ i f, .begun i f ∉ more) : IsKept asked { s with board := b } (log ++ more) where
  wellFormed := h.wellFormed
  faithful := h.faithful.turn hturn
  traced := h.traced.turn hturn h.faithful
  calls := h.calls
  stored := h.stored
  distinct := h.distinct
  announced := by
    rw [announced_append, announced_eq_nil hmore, List.append_nil]
    exact h.announced
  finished c i e hc := List.mem_append_left _ (h.finished c i e hc)

/-- A call that is added has announced nothing; its entry is stored and new. -/
theorem added (h : s.IsKept asked log) {a : NewEntry × Timestamp} {store : Store} (hwf : store.IsWellFormed)
    (hkept : ∀ e, s.store.Holds e → store.Holds e) (hnone : call.announced? = none) (hof : call.IsOf a)
    (hnew : ∀ e, call.entry? = some e → store.Holds e ∧ e.id = ⟨s.store.lastId + 1⟩) :
    IsKept (asked ++ [a]) { s with store, appends := s.appends ++ [call] } log := by
  have hinserted : inserted { s with store, appends := s.appends ++ [call] } =
      s.inserted ++ call.entry?.toList := by
    rw [inserted, List.filterMap_append, inserted]
    cases hentry : call.entry? <;> simp [hentry]
  refine ⟨hwf, h.faithful, h.traced, List.rel_append h.calls (.cons hof .nil), fun e he => ?_, ?_, ?_,
    fun c i e hc => ?_⟩
  · rw [hinserted] at he
    rcases List.mem_append.mp he with he | he
    · exact hkept e (h.stored e he)
    · exact (hnew e (Option.mem_toList.mp he)).1
  · rw [hinserted, List.map_append]
    refine List.nodup_append.mpr ⟨h.distinct, ?_, ?_⟩
    · cases call.entry? <;> simp
    · rintro id hid id' hid' rfl
      obtain ⟨e, he, rfl⟩ := List.mem_map.mp hid
      obtain ⟨e', he', hsame⟩ := List.mem_map.mp hid'
      exact (h.stored e he).ne_new h.wellFormed (hsame ▸ (hnew e' (Option.mem_toList.mp he')).2)
  · rw [List.filterMap_append, List.filterMap_cons_none hnone, List.filterMap_nil, List.append_nil]
    exact h.announced
  · rcases getElem?_snoc_eq_some_iff.mp hc with hc | ⟨-, rfl⟩
    · exact h.finished c i e hc
    · cases hnone

theorem appended (h : s.IsKept asked log) (new : NewEntry) (now : Timestamp) :
    IsKept (asked ++ [(new, now)]) (s.act (.operate (.append new) now)) log := by
  have happly : (s.store.apply (.append new) now).2 = (s.store.append new now).2 :=
    Store.Outcome.snd_map _ _
  have hwf := (h.operated (.append new) now).wellFormed
  have hkept : ∀ e, s.store.Holds e → (s.store.append new now).2.Holds e := fun e he =>
    happly ▸ he.apply h.wellFormed (.append new) now
  rw [happly] at hwf
  rcases s.store.append_cases new now with ⟨error, hanswer⟩ | ⟨hanswer, hstored⟩
  · rw [act, hanswer]
    exact h.added hwf hkept rfl (fun e he => by cases he) fun e he => by cases he
  · rw [act, hanswer]
    refine h.added hwf hkept rfl (fun e he => ?_) fun e he => ?_
    · cases he
      exact ⟨_, rfl⟩
    · cases he
      exact ⟨⟨_, hstored, rfl, rfl⟩, rfl⟩

/-- An append begins its announcement. -/
theorem begins (h : s.IsKept asked log) (hc : s.appends[c]? = some (.inserted e)) :
    IsKept asked { s with board := s.board.act (.fire (.appended e))
                          appends := s.appends.set c (.announcing e s.board.firings.length) }
      (log ++ s.board.tells (.fire (.appended e))) := by
  have hturn := turn_act s.board (.fire (.appended e))
  have hinserted : (s.appends.set c (.announcing e s.board.firings.length)).filterMap AppendCall.entry? =
      s.inserted := filterMap_set_of_eq hc rfl
  refine ⟨h.wellFormed, h.faithful.turn hturn, h.traced.turn hturn h.faithful, calls_set h.calls hc rfl,
    fun e' he' => h.stored e' (hinserted ▸ he'), ?_, ?_, fun c' i e' hc' => ?_⟩
  · rw [inserted, hinserted]
    exact h.distinct
  · have hone : BoardEvent.announced (s.board.tells (.fire (.appended e))) =
        [(s.board.firings.length, TransactionEvent.appended e)] := rfl
    rw [announced_append, hone]
    exact (List.perm_append_singleton _ _).trans
      ((h.announced.cons _).trans (filterMap_set_perm (f := AppendCall.announced?) hc rfl rfl).symm)
  · refine List.mem_append_left _ (h.finished c' i e' ?_)
    by_cases heq : c = c'
    · rw [← heq, getElem?_set_of_some hc] at hc'
      cases hc'
    · rwa [List.getElem?_set_ne heq] at hc'

/-- An append whose announcement is over returns. -/
theorem returns (h : s.IsKept asked log) (hc : s.appends[c]? = some (.announcing e i)) {f : TransactionEvent}
    (hi : s.board.firings[i]? = some (.finished f)) :
    IsKept asked { s with appends := s.appends.set c (.returned e i) } log := by
  have hinserted : (s.appends.set c (.returned e i)).filterMap AppendCall.entry? = s.inserted :=
    filterMap_set_of_eq hc rfl
  refine ⟨h.wellFormed, h.faithful, h.traced, calls_set h.calls hc rfl,
    fun e' he' => h.stored e' (hinserted ▸ he'), ?_, ?_, fun c' j e' hc' => ?_⟩
  · rw [inserted, hinserted]
    exact h.distinct
  · have hsame : (s.appends.set c (.returned e i)).filterMap AppendCall.announced? =
        s.appends.filterMap AppendCall.announced? := filterMap_set_of_eq hc rfl
    exact hsame ▸ h.announced
  · by_cases heq : c = c'
    · rw [← heq, getElem?_set_of_some hc] at hc'
      cases hc'
      exact (h.faithful.told i _ hi).ended.mpr rfl
    · rw [List.getElem?_set_ne heq] at hc'
      exact h.finished c' j e' hc'

theorem act (h : s.IsKept asked log) (x : AnnouncedAction) :
    IsKept (asked ++ x.asked?.toList) (s.act x) (log ++ s.tells x) := by
  cases x with
  | operate op now =>
    rw [tells, List.append_nil]
    cases op with
    | append new => exact h.appended new now
    | _ =>
      simp only [AnnouncedAction.asked?, Option.toList_none, List.append_nil]
      exact h.operated _ now
  | proceed c =>
    simp only [AnnouncedAction.asked?, Option.toList_none, List.append_nil]
    simp only [AnnouncedStore.act, proceed, tells]
    split
    · rename_i e hc
      exact h.begins hc
    · rename_i e i hc
      have hturn := turn_act s.board (.proceed i)
      split
      · rename_i f hi
        have hquiet : s.board.tells (.proceed i) = [] := by simp only [Board.tells, hi, Firing.tells]
        rw [hquiet, List.append_nil]
        exact h.returns hc hi
      · exact h.listened hturn fun j f hf => by cases (begun_of_tells hf).1
    · rw [List.append_nil]
      exact h
  | listen x =>
    simp only [AnnouncedAction.asked?, Option.toList_none, List.append_nil]
    simp only [AnnouncedStore.act, tells]
    split
    · rw [List.append_nil]
      exact h
    · rename_i hquiet
      refine h.listened (turn_act s.board x) fun i f hf => ?_
      rw [(begun_of_tells hf).1] at hquiet
      exact hquiet rfl

theorem run (h : s.IsKept asked log) (actions : List AnnouncedAction) :
    IsKept (asked ++ actions.filterMap AnnouncedAction.asked?) (s.run actions) (log ++ s.log actions) := by
  induction actions generalizing s asked log with
  | nil =>
    rw [AnnouncedStore.log, List.filterMap_nil, List.append_nil, List.append_nil]
    exact h
  | cons x rest ih =>
    have hasked : (x :: rest).filterMap AnnouncedAction.asked? =
        x.asked?.toList ++ rest.filterMap AnnouncedAction.asked? := by
      cases hx : x.asked? <;> simp [hx]
    rw [AnnouncedStore.log, hasked, ← List.append_assoc, ← List.append_assoc]
    exact ih (h.act x)

/-- Whatever is announced is the commit of an entry that was inserted. -/
theorem of_announced (h : s.IsKept asked log) {f : TransactionEvent} (hbegun : .begun i f ∈ log) :
    ∃ e ∈ s.inserted, f = .appended e := by
  obtain ⟨call, hcall, hsome⟩ := List.mem_filterMap.mp (h.announced.mem_iff.mp (mem_announced_iff.mpr hbegun))
  cases call with
  | refused error => cases hsome
  | inserted e => cases hsome
  | announcing e j | returned e j =>
    cases hsome
    exact ⟨e, List.mem_filterMap.mpr ⟨_, hcall, rfl⟩, rfl⟩

theorem begun_of_seen (h : s.IsKept asked log) {f : TransactionEvent} (hseen : Seen f log) :
    ∃ i, .begun i f ∈ log := by
  rcases hseen with ⟨i, c, hbegun, -⟩ | ⟨id, es, htaken, hf⟩
  · exact ⟨i, hbegun⟩
  · exact h.traced.taken id es htaken f hf

/-- A call whose entry was stored returns after some steps of its own. -/
theorem returns_alone (h : s.IsKept asked log) (hc : s.appends[c]? = some call)
    (hentry : call.entry? = some e) :
    ∃ count i : Nat, (s.run (List.replicate count (.proceed c))).appends[c]? = some (.returned e i) := by
  cases call with
  | refused error => cases hentry
  | inserted e' =>
    cases hentry
    obtain ⟨count, hrun⟩ := run_inserted hc
    refine ⟨count, s.board.firings.length, ?_⟩
    rw [hrun]
    exact getElem?_set_of_some hc _
  | announcing e' i =>
    cases hentry
    have hcall : (i, .appended e) ∈ s.appends.filterMap AppendCall.announced? :=
      List.mem_filterMap.mpr ⟨_, List.mem_of_getElem? hc, rfl⟩
    obtain ⟨f, hi, -⟩ := h.faithful.told_of_begun (mem_announced_iff.mp (h.announced.mem_iff.mpr hcall))
    obtain ⟨called, n', count, hover, -⟩ := proceedsTo_over s.board.notifier hi
    have hfinished : (s.board.run (List.replicate count (.proceed i))).firings[i]? =
        some (.finished f.event) := by
      rw [hover]
      exact getElem?_set_of_some hi _
    obtain ⟨steps, hrun⟩ := run_announcing hc hfinished
    refine ⟨steps, i, ?_⟩
    rw [hrun]
    exact getElem?_set_of_some hc _
  | returned e' i =>
    cases hentry
    exact ⟨0, i, hc⟩

end IsKept

/-- How the appends of a run and what is announced in it go together. -/
structure Corresponds (asked : List (NewEntry × Timestamp)) (s : AnnouncedStore) (log : List BoardEvent) :
    Prop where
  /-- There is one call for each append that was asked for; its entry, if it is not refused, is the one
  that was asked for. -/
  calls : List.Forall₂ AppendCall.IsOf asked s.appends
  /-- No number is given to two entries. -/
  distinct : (s.inserted.map Entry.id).Nodup
  /-- What is announced are the commits of the entries whose calls are that far, each once, and nothing
  else. -/
  announced : (announced log).Perm (s.appends.filterMap AppendCall.announced?)
  /-- A call returns when its announcement is over. -/
  finished : ∀ (c i : Nat) (e : Entry), s.appends[c]? = some (.returned e i) → .ended i ∈ log
  /-- A call that is not refused is not kept from its end. -/
  returns : ∀ (c : Nat) (call : AppendCall) (e : Entry), s.appends[c]? = some call → call.entry? = some e →
    ∃ count i : Nat, (s.run (List.replicate count (.proceed c))).appends[c]? = some (.returned e i)
  /-- Whoever has heard of an entry finds it, live or purged, with the creator that was told. -/
  found : ∀ f, Seen f log → ∀ id ∈ f.entryIds, ∃ e, s.store.lookup? id = some e ∧ e.creatingOwner = f.owner ∧
    (s.store.failuresLeft = 0 → (s.store.find id).1 = .ok (some e))

/-- Appends and announcements correspond one to one, in whatever order the steps of appends, the operations
of other clients and what listeners do come. -/
theorem appends_announced (actions : List AnnouncedAction) :
    Corresponds (actions.filterMap AnnouncedAction.asked?) (empty.run actions) (empty.log actions) := by
  have h := IsKept.empty.run actions
  rw [List.nil_append, List.nil_append] at h
  refine ⟨h.calls, h.distinct, h.announced, h.finished, fun c call e hc hentry => h.returns_alone hc hentry,
    fun f hseen id hid => ?_⟩
  obtain ⟨i, hbegun⟩ := h.begun_of_seen hseen
  obtain ⟨e, he, rfl⟩ := h.of_announced hbegun
  obtain ⟨e', he', hid', howner⟩ := h.stored e he
  have hlookup : (empty.run actions).store.lookup? id = some e' :=
    h.wellFormed.lookup?_eq_some_iff.mpr ⟨he', hid'.trans (List.mem_singleton.mp hid).symm⟩
  refine ⟨e', hlookup, howner, fun hleft => ?_⟩
  simp only [Store.find, Store.guarded, hleft, hlookup]

end AnnouncedStore

end DurableQueue
