import DurableQueue.Proofs.Store.Chronology

/-!
Purges do not show.

Two stores run side by side: the one is purged now and then, the other never. `Store.IsPurged` relates
them: the first keeps apart what the second still holds among its live entries, all of it in terminal
states. Claims, reaps and releases never look at such entries and a look-up finds them in either place,
so the two give the same answers (`purges_invisible`); only an update with the claim of a purged entry
is refused for another reason.
-/

namespace DurableQueue

namespace StoreOp

def isPurge : StoreOp → Bool
  | .purge _ => true
  | _ => false

/-- An operation that makes later ones fail. -/
def injects : StoreOp → Bool
  | .failNext _ => true
  | _ => false

/-- The answers of an operation on a store that was purged and on one that was not. The claim of a
purged entry is not found; otherwise it counts as modified. Counts and searches are about live entries
alone, and may differ. -/
def AnswersAlike : StoreOp → (purged unpurged : Except StoreError StoreAnswer) → Prop
  | .update claimed _, a, b =>
    a = b ∨ a = .error (.noEntry claimed.id) ∧ b = .error (.modifiedConcurrently claimed.id)
  | .count _, _, _ | .search _ _, _, _ => True
  | _, a, b => a = b

end StoreOp

namespace Store

variable {s t : Store} {op : StoreOp} {now : Timestamp} {e : Entry}

/-- A store that was purged, beside the same store without its purges. -/
structure IsPurged (s t : Store) : Prop where
  wellFormed : s.IsWellFormed
  unpurgedWellFormed : t.IsWellFormed
  lastId : s.lastId = t.lastId
  live : s.live = t.live.filter fun e => e ∉ s.history
  purged : ∀ e ∈ s.history, e ∈ t.live
  unpurged : t.history = []
  unfailing : s.failuresLeft = 0 ∧ t.failuresLeft = 0

namespace IsPurged

theorem refl_empty : empty.IsPurged empty where
  wellFormed := isWellFormed_empty
  unpurgedWellFormed := isWellFormed_empty
  lastId := rfl
  live := rfl
  purged := by simp [empty]
  unpurged := rfl
  unfailing := ⟨rfl, rfl⟩

theorem mem_live_iff (h : s.IsPurged t) : e ∈ s.live ↔ e ∈ t.live ∧ e ∉ s.history := by
  rw [h.live, List.mem_filter, decide_eq_true_iff]

/-- Live and purged entries together are the entries of the store without purges. -/
theorem mem_stored_iff (h : s.IsPurged t) : e ∈ s.stored ↔ e ∈ t.stored := by
  rw [stored, stored, h.unpurged, List.append_nil, List.mem_append, h.mem_live_iff]
  constructor
  · rintro (⟨he, -⟩ | he)
    · exact he
    · exact h.purged e he
  · intro he
    by_cases hpurged : e ∈ s.history
    · exact .inr hpurged
    · exact .inl ⟨he, hpurged⟩

theorem stored_perm (h : s.IsPurged t) : s.stored.Perm t.stored :=
  (List.perm_ext_iff_of_nodup (h.wellFormed.distinct.of_map _)
    (h.unpurgedWellFormed.distinct.of_map _)).mpr fun _ => h.mem_stored_iff

/-- What no terminal entry passes is passed by the same live entries of both. -/
theorem filter_live (h : s.IsPurged t) {p : Entry → Bool}
    (hp : ∀ e, p e = true → e.state.isTerminal = false) : s.live.filter p = t.live.filter p := by
  rw [h.live, List.filter_filter]
  refine List.filter_congr fun e _ => ?_
  cases hpass : p e with
  | false => rfl
  | true =>
    have hkept : e ∉ s.history := fun he => by
      have hterminal := h.wellFormed.retired e he
      rw [hp e hpass] at hterminal
      cases hterminal
    simp [hkept]

/-- A change that keeps the numbers and leaves terminal entries alone may be made in both. -/
theorem map_live (h : s.IsPurged t) {f : Entry → Entry} (hid : ∀ e ∈ t.live, (f e).id = e.id)
    (hf : ∀ e ∈ t.live, e.state.isTerminal = true → f e = e) :
    IsPurged { s with live := s.live.map f } { t with live := t.live.map f } where
  wellFormed := h.wellFormed.of_ids
    (ids_map_of_id_eq s.live fun e he => hid e (h.mem_live_iff.mp he).1) rfl rfl
  unpurgedWellFormed := h.unpurgedWellFormed.of_ids (ids_map_of_id_eq t.live hid) rfl rfl
  lastId := h.lastId
  live := by
    simp only [h.live, List.filter_map]
    refine congrArg (List.map f) (List.filter_congr fun e he => ?_)
    -- the changed record of an entry is purged only if the entry was, and it did not change then
    have hiff : e ∈ s.history ↔ f e ∈ s.history := by
      constructor
      · intro hpurged
        rwa [hf e he (h.wellFormed.retired e hpurged)]
      · intro hpurged
        have hsame : f e = e := h.unpurgedWellFormed.eq_of_id_eq
          (List.mem_append_left _ (h.purged _ hpurged)) (List.mem_append_left _ he) (hid e he)
        rwa [hsame] at hpurged
    simp [hiff]
  purged := by
    intro e he
    have hlive := h.purged e he
    exact List.mem_map.mpr ⟨e, hlive, hf e hlive (h.wellFormed.retired e he)⟩
  unpurged := h.unpurged
  unfailing := h.unfailing

/-- A live entry of the purged store is live in the other. -/
theorem liveEntry?_of_eq_some (h : s.IsPurged t) {id : EntryId} (he : s.liveEntry? id = some e) :
    t.liveEntry? id = some e := by
  have hlive : e ∈ t.live := (h.mem_live_iff.mp (List.mem_of_find?_eq_some he)).1
  have hid : e.id = id := by simpa using List.find?_some he
  cases hfind : t.liveEntry? id with
  | none => exact absurd hid (by simpa using List.find?_eq_none.mp hfind e hlive)
  | some f =>
    have hf : f.id = id := by simpa using List.find?_some hfind
    rw [h.unpurgedWellFormed.eq_of_id_eq (List.mem_append_left _ (List.mem_of_find?_eq_some hfind))
      (List.mem_append_left _ hlive) (hf.trans hid.symm)]

/-- What the purged store does not find alive, but the other does, is in a terminal state. -/
theorem isTerminal_of_eq_none (h : s.IsPurged t) {id : EntryId} (hnone : s.liveEntry? id = none)
    (he : t.liveEntry? id = some e) : e.state.isTerminal = true := by
  have hlive : e ∈ t.live := List.mem_of_find?_eq_some he
  have hid : e.id = id := by simpa using List.find?_some he
  have hgone : e ∉ s.live := fun hin => by simpa [hid] using List.find?_eq_none.mp hnone e hin
  by_cases hpurged : e ∈ s.history
  · exact h.wellFormed.retired e hpurged
  · exact absurd (h.mem_live_iff.mpr ⟨hlive, hpurged⟩) hgone

theorem lookup?_eq (h : s.IsPurged t) (id : EntryId) : s.lookup? id = t.lookup? id := by
  refine Option.ext fun e => ?_
  rw [h.wellFormed.lookup?_eq_some_iff, h.unpurgedWellFormed.lookup?_eq_some_iff, h.mem_stored_iff]

/-- What an operation does to both stores of a pair. -/
structure Follows (op : StoreOp) (now : Timestamp) (s t : Store) : Prop where
  answers : op.AnswersAlike (s.apply op now).1 (t.apply op now).1
  after : (s.apply op now).2.IsPurged (t.apply op now).2

theorem Follows.of_eq {s' t' : Store} {a b : Except StoreError StoreAnswer}
    (hs : s.apply op now = (a, s')) (ht : t.apply op now = (b, t')) (hanswers : op.AnswersAlike a b)
    (hafter : s'.IsPurged t') : Follows op now s t := by
  refine ⟨?_, ?_⟩
  · rwa [hs, ht]
  · rwa [hs, ht]

/-- The claim of a purged entry is over in the other store as well. -/
theorem isSameClaim_of_eq_none (h : s.IsPurged t) {claimed : Entry}
    (hnone : s.liveEntry? claimed.id = none) (he : t.liveEntry? claimed.id = some e) :
    isSameClaim e claimed = false := by
  have hterminal := h.isTerminal_of_eq_none hnone he
  rw [← Bool.not_eq_true, isSameClaim_iff]
  rintro ⟨hstate, -, -⟩
  rw [hstate] at hterminal
  cases hterminal

theorem replace (h : s.IsPurged t) {claimed : Entry} (next : Entry) (hlive : e ∈ t.live)
    (hsame : isSameClaim e claimed = true) :
    (s.replace (resolved e next now)).IsPurged (t.replace (resolved e next now)) := by
  refine h.map_live (fun f _ => ?_) fun f hf hterminal => if_neg fun hid => ?_
  · split
    · rename_i hid
      exact hid.symm
    · rfl
  · have heq : f = e := h.unpurgedWellFormed.eq_of_id_eq (List.mem_append_left _ hf)
      (List.mem_append_left _ hlive) hid
    rw [heq, (isSameClaim_iff.mp hsame).1] at hterminal
    cases hterminal

theorem Follows.of_update {claimed next : Entry} {s' t' : Store} {a b : Except StoreError Unit}
    (hs : s.update claimed next now = (a, s')) (ht : t.update claimed next now = (b, t'))
    (hanswers : a = b ∨ a = .error (.noEntry claimed.id) ∧ b = .error (.modifiedConcurrently claimed.id))
    (hafter : s'.IsPurged t') : Follows (.update claimed next) now s t := by
  have happly (u : Store) : u.apply (.update claimed next) now =
      Outcome.map (fun _ => .done) (u.update claimed next now) := rfl
  refine ⟨?_, ?_⟩
  · rw [happly, happly, hs, ht]
    rcases hanswers with rfl | ⟨rfl, rfl⟩
    · cases a <;> exact .inl rfl
    · exact .inr ⟨rfl, rfl⟩
  · rw [happly, happly, hs, ht]
    cases a <;> cases b <;> exact hafter

theorem follows_update (h : s.IsPurged t) (claimed next : Entry) (now : Timestamp) :
    Follows (.update claimed next) now s t := by
  obtain ⟨hs, ht⟩ := h.unfailing
  cases hfind : s.liveEntry? claimed.id with
  | none =>
    cases hfind' : t.liveEntry? claimed.id with
    | none => exact .of_update (update_of_none hs hfind) (update_of_none ht hfind') (.inl rfl) h
    | some f =>
      have hlost := h.isSameClaim_of_eq_none hfind hfind'
      exact .of_update (update_of_none hs hfind) (update_of_lost ht hfind' hlost) (.inr ⟨rfl, rfl⟩) h
  | some f =>
    have hfind' := h.liveEntry?_of_eq_some hfind
    cases hsame : isSameClaim f claimed with
    | false =>
      exact .of_update (update_of_lost hs hfind hsame) (update_of_lost ht hfind' hsame) (.inl rfl) h
    | true =>
      cases hmove : f.state.canMoveTo next.state with
      | false =>
        exact .of_update (update_of_unmovable hs hfind hsame hmove)
          (update_of_unmovable ht hfind' hsame hmove) (.inl rfl) h
      | true =>
        exact .of_update (update_of_held hs hfind hsame hmove) (update_of_held ht hfind' hsame hmove)
          (.inl rfl) (h.replace next (List.mem_of_find?_eq_some hfind') hsame)

theorem follows_append (h : s.IsPurged t) (new : NewEntry) (now : Timestamp) :
    Follows (.append new) now s t := by
  obtain ⟨hs, ht⟩ := h.unfailing
  have hfresh : Entry.ofNew ⟨t.lastId + 1⟩ new now ∉ s.history := fun hin => by
    have hterminal := h.wellFormed.retired _ hin
    cases hterminal
  have hafter : IsPurged
      { s with lastId := s.lastId + 1, live := s.live ++ [.ofNew ⟨s.lastId + 1⟩ new now] }
      { t with lastId := t.lastId + 1, live := t.live ++ [.ofNew ⟨t.lastId + 1⟩ new now] } := {
    wellFormed := isWellFormed_appended h.wellFormed new now
    unpurgedWellFormed := isWellFormed_appended h.unpurgedWellFormed new now
    lastId := congrArg (· + 1) h.lastId
    live := by
      simp only [h.lastId, h.live, List.filter_append]
      simp [hfresh]
    purged := fun e he => List.mem_append_left _ (h.purged e he)
    unpurged := h.unpurged
    unfailing := h.unfailing }
  refine .of_eq (a := .ok (.entry (.ofNew ⟨s.lastId + 1⟩ new now)))
    (b := .ok (.entry (.ofNew ⟨t.lastId + 1⟩ new now))) ?_ ?_ ?_ hafter
  · simp only [apply, append, guarded, hs, Outcome.map]
  · simp only [apply, append, guarded, ht, Outcome.map]
  · simp only [StoreOp.AnswersAlike, h.lastId]

theorem isTerminal_of_isWanted {owner : Option NodeId} (h : isWanted owner now e = true) :
    e.state.isTerminal = false := by
  rw [(Entry.isClaimableAt_iff.mp (isWanted_iff.mp h).1).1]
  rfl

theorem follows_claim (h : s.IsPurged t) (count : Nat) (claimer : NodeId) (owner : Option NodeId)
    (now : Timestamp) : Follows (.claim count claimer owner) now s t := by
  obtain ⟨hs, ht⟩ := h.unfailing
  have hwanted : s.live.filter (isWanted owner now) = t.live.filter (isWanted owner now) :=
    h.filter_live fun _ he => isTerminal_of_isWanted he
  have hanswer : (claimFirst claimer owner now count s.live).1 =
      (claimFirst claimer owner now count t.live).1 := by
    rw [claimFirst_fst, claimFirst_fst, hwanted]
  have hafter : IsPurged { s with live := (claimFirst claimer owner now count s.live).2 }
      { t with live := (claimFirst claimer owner now count t.live).2 } := by
    rw [claimFirst_snd _ _ _ _ _ h.wellFormed.nodup_live,
      claimFirst_snd _ _ _ _ _ h.unpurgedWellFormed.nodup_live, hwanted]
    refine h.map_live (fun e _ => ?_) fun e _ hterminal => if_neg fun hin => ?_
    · split <;> rfl
    · have hopen := isTerminal_of_isWanted (List.mem_filter.mp (List.mem_of_mem_take hin)).2
      rw [hterminal] at hopen
      cases hopen
  refine .of_eq ?_ ?_ (congrArg (fun es => .ok (.entries es)) hanswer) hafter
  · simp only [apply, claim, guarded, hs, Outcome.map]
  · simp only [apply, claim, guarded, ht, Outcome.map]

/-- An operation that changes every live entry passing a test, where no terminal entry passes. -/
theorem changeWhere (h : s.IsPurged t) (test : Entry → Bool) (change : Entry → Entry)
    (htest : ∀ e, test e = true → e.state = .inProcessing) (hid : ∀ e, (change e).id = e.id) :
    (s.changeWhere test change).1 = (t.changeWhere test change).1 ∧
      (s.changeWhere test change).2.IsPurged (t.changeWhere test change).2 := by
  have hopen : ∀ e, test e = true → e.state.isTerminal = false := by
    intro e he
    rw [htest e he]
    rfl
  refine ⟨congrArg (List.map change) (h.filter_live hopen), h.map_live (fun e _ => ?_) ?_⟩
  · split
    · exact hid e
    · rfl
  · intro e _ hterminal
    refine if_neg fun hpass => ?_
    rw [hopen e hpass] at hterminal
    cases hterminal

theorem follows_reap (h : s.IsPurged t) (policy : ReapPolicy) (now : Timestamp) :
    Follows (.reap policy) now s t := by
  obtain ⟨hs, ht⟩ := h.unfailing
  cases hcutoff : policy.cutoff now with
  | error e =>
    refine .of_eq (a := .error e) (b := .error e) ?_ ?_ rfl h
    · simp only [apply, reap, guarded, hs, Outcome.map, hcutoff]
    · simp only [apply, reap, guarded, ht, Outcome.map, hcutoff]
  | ok cutoff =>
    obtain ⟨hanswer, hafter⟩ := h.changeWhere (·.isStaleClaim cutoff) (·.reaped policy now)
      (fun e he => (Entry.isStaleClaim_iff.mp he).1) fun _ => rfl
    refine .of_eq ?_ ?_ (congrArg (fun es => .ok (.entries es)) hanswer) hafter
    · simp only [apply, reap, guarded, hs, Outcome.map, hcutoff]
    · simp only [apply, reap, guarded, ht, Outcome.map, hcutoff]

theorem follows_release (h : s.IsPurged t) (owner : NodeId) (now : Timestamp) :
    Follows (.release owner) now s t := by
  obtain ⟨hs, ht⟩ := h.unfailing
  obtain ⟨hanswer, hafter⟩ := h.changeWhere (·.isHeldBy owner) (·.released now)
    (fun e he => (Entry.isHeldBy_iff.mp he).1) fun _ => rfl
  refine .of_eq ?_ ?_ (congrArg (fun es => .ok (.entries es)) hanswer) hafter
  · simp only [apply, release, guarded, hs, Outcome.map]
  · simp only [apply, release, guarded, ht, Outcome.map]

/-- Every operation but a purge keeps the pair, and is answered alike. -/
theorem follows (h : s.IsPurged t) (hpurge : op.isPurge = false) (hinjects : op.injects = false)
    (now : Timestamp) : Follows op now s t := by
  obtain ⟨hs, ht⟩ := h.unfailing
  cases op with
  | append new => exact h.follows_append new now
  | claim count claimer owner => exact h.follows_claim count claimer owner now
  | update claimed next => exact h.follows_update claimed next now
  | reap policy => exact h.follows_reap policy now
  | release owner => exact h.follows_release owner now
  | count state =>
    have happly (u : Store) (hu : u.failuresLeft = 0) : u.apply (.count state) now =
        (.ok (.count (u.live.countP fun e => e.state == state)), u) := by
      simp only [apply, Store.count, guarded, hu, Outcome.map]
    exact .of_eq (happly s hs) (happly t ht) trivial h
  | find id =>
    have happly (u : Store) (hu : u.failuresLeft = 0) :
        u.apply (.find id) now = (.ok (.found (u.lookup? id)), u) := by
      simp only [apply, find, guarded, hu, Outcome.map]
    have hanswers : (StoreOp.find id).AnswersAlike (.ok (.found (s.lookup? id)))
        (.ok (.found (t.lookup? id))) := by
      rw [h.lookup?_eq]
      exact rfl
    exact .of_eq (happly s hs) (happly t ht) hanswers h
  | search key1 key2 =>
    have happly (u : Store) (hu : u.failuresLeft = 0) : u.apply (.search key1 key2) now =
        (.ok (.entries (u.live.filter (·.carries key1 key2))), u) := by
      simp only [apply, search, guarded, hu, Outcome.map]
    exact .of_eq (happly s hs) (happly t ht) trivial h
  | purge olderThan => cases hpurge
  | failNext count => cases hinjects

/-- A purge of the one store keeps the pair. -/
theorem purge (h : s.IsPurged t) (olderThan now : Timestamp) :
    (s.apply (.purge olderThan) now).2.IsPurged t := by
  have hafter : (s.apply (.purge olderThan) now).2 =
      { s with live := s.live.filter fun e => !isPurgeable olderThan e
               history := s.history ++ s.live.filter (isPurgeable olderThan) } := by
    simp only [apply, Store.purge, guarded, h.unfailing.1, Outcome.map]
  rw [hafter]
  exact {
    wellFormed := isWellFormed_purged h.wellFormed olderThan
    unpurgedWellFormed := h.unpurgedWellFormed
    lastId := h.lastId
    live := by
      simp only [h.live, List.filter_filter]
      refine List.filter_congr fun e he => ?_
      by_cases hpurged : e ∈ s.history
      · simp [hpurged]
      · cases hold : isPurgeable olderThan e <;> simp [hpurged, hold, he]
    purged := by
      intro e he
      rcases List.mem_append.mp he with he | he
      · exact h.purged e he
      · exact (h.mem_live_iff.mp (List.mem_of_mem_filter he)).1
    unpurged := h.unpurged
    unfailing := h.unfailing }

end IsPurged

/-- Operations without their purges. -/
def withoutPurges (ops : List (StoreOp × Timestamp)) : List (StoreOp × Timestamp) :=
  ops.filter fun o => !o.1.isPurge

theorem events_cons (s : Store) (o : StoreOp × Timestamp) (ops : List (StoreOp × Timestamp)) :
    s.events (o :: ops) = (o.1, (s.apply o.1 o.2).1) :: (s.apply o.1 o.2).2.events ops := rfl

/-- Runs from a pair, with the purges and without, are answered alike and end in a pair. -/
theorem isPurged_run (h : s.IsPurged t) {ops : List (StoreOp × Timestamp)}
    (hinjects : ∀ o ∈ ops, o.1.injects = false) :
    List.Forall₂ (fun x y => x.1 = y.1 ∧ x.1.AnswersAlike x.2 y.2)
        ((s.events ops).filter fun x => !x.1.isPurge) (t.events (withoutPurges ops)) ∧
      (s.run ops).2.IsPurged (t.run (withoutPurges ops)).2 := by
  induction ops generalizing s t with
  | nil => exact ⟨.nil, h⟩
  | cons o rest ih =>
    obtain ⟨op, now⟩ := o
    obtain ⟨hop, hrest⟩ := List.forall_mem_cons.mp hinjects
    rw [events_cons]
    cases hpurge : op.isPurge with
    | true =>
      obtain ⟨olderThan, rfl⟩ : ∃ olderThan, op = .purge olderThan := by
        cases op <;> first | exact ⟨_, rfl⟩ | cases hpurge
      exact ih (h.purge olderThan now) hrest
    | false =>
      have hfollows := h.follows hpurge hop now
      obtain ⟨hanswers, hend⟩ := ih hfollows.after hrest
      simp only [withoutPurges, List.filter_cons, hpurge, Bool.not_false, ↓reduceIte, events_cons]
      exact ⟨.cons ⟨rfl, hfollows.answers⟩ hanswers, hend⟩

/-- What a purge does: it moves the terminal entries that were last changed before a time, as they
are, and answers their number. -/
structure MovesExpired (s : Store) (olderThan : Timestamp) (answer : Except StoreError StoreAnswer)
    (s' : Store) : Prop where
  answer : answer = .ok (.count
    (s.live.countP fun e => e.state.isTerminal = true ∧ e.updatedTime < olderThan))
  live : s'.live = s.live.filter fun e => ¬ (e.state.isTerminal = true ∧ e.updatedTime < olderThan)
  history : s'.history = s.history ++
    s.live.filter fun e => e.state.isTerminal = true ∧ e.updatedTime < olderThan
  lastId : s'.lastId = s.lastId

theorem movesExpired_purge (hleft : s.failuresLeft = 0) (olderThan now : Timestamp) :
    s.MovesExpired olderThan (s.apply (.purge olderThan) now).1 (s.apply (.purge olderThan) now).2 := by
  have hpurgeable : isPurgeable olderThan =
      fun e => decide (e.state.isTerminal = true ∧ e.updatedTime < olderThan) := by
    funext e
    simp [isPurgeable]
  simp only [apply, purge, guarded, hleft, Outcome.map, hpurgeable]
  refine ⟨by rw [List.countP_eq_length_filter], List.filter_congr fun e _ => ?_, rfl, rfl⟩
  rw [decide_not]

/-- Take a run in which no failure is injected and the same run without its purges. Every operation
is answered alike: appends, claims, reaps, releases and look-ups just the same, and so are updates,
except that the claim of a purged entry is not found where it would count as modified. At the end both
hold the same records. Each purge moves exactly the terminal entries that are old enough. -/
theorem purges_invisible (ops : List (StoreOp × Timestamp)) (h : ∀ o ∈ ops, o.1.injects = false) :
    List.Forall₂ (fun x y => x.1 = y.1 ∧ x.1.AnswersAlike x.2 y.2)
        ((empty.events ops).filter fun x => !x.1.isPurge) (empty.events (withoutPurges ops)) ∧
      (empty.run ops).2.stored.Perm (empty.run (withoutPurges ops)).2.stored ∧
      ∀ (i : Nat) (olderThan now : Timestamp), ops[i]? = some (.purge olderThan, now) →
        ∃ answer, (empty.events ops)[i]? = some (.purge olderThan, answer) ∧
          (empty.stateAt ops i).MovesExpired olderThan answer (empty.stateAt ops (i + 1)) := by
  obtain ⟨hanswers, hend⟩ := isPurged_run .refl_empty h
  refine ⟨hanswers, hend.stored_perm, fun i olderThan now hi => ?_⟩
  have hbefore : (empty.stateAt ops i).IsPurged (empty.run (withoutPurges (ops.take i))).2 :=
    (isPurged_run .refl_empty fun o ho => h o (List.mem_of_mem_take ho)).2
  refine ⟨_, getElem?_events_of_getElem? hi, ?_⟩
  rw [stateAt_succ hi]
  exact movesExpired_purge hbefore.unfailing.1 olderThan now

/-- An entry is processed and purged, and then comes another update with its claim. -/
def purgedRun : List (StoreOp × Timestamp) :=
  [(.append ⟨⟨"order", []⟩, ⟨"node"⟩, .none⟩, .epoch), (.claim 1 ⟨"node"⟩ none, .epoch),
   (.update firstClaim { firstClaim with state := .processed }, .epoch), (.purge .latest, .latest),
   (.update firstClaim { firstClaim with state := .failed }, .latest), (.find ⟨1⟩, .latest)]

theorem purges_invisible_purgedRun :
    (∀ o ∈ purgedRun, o.1.injects = false) ∧
      (empty.run purgedRun).1[4]? = some (.error (.noEntry ⟨1⟩)) ∧
      (empty.run (withoutPurges purgedRun)).1[3]? = some (.error (.modifiedConcurrently ⟨1⟩)) ∧
      (empty.run purgedRun).1[5]? = (empty.run (withoutPurges purgedRun)).1[4]? ∧
      (empty.run purgedRun).2.stored.Perm (empty.run (withoutPurges purgedRun)).2.stored := by
  have hinjects : ∀ o ∈ purgedRun, o.1.injects = false := by decide
  exact ⟨hinjects, rfl, rfl, rfl, (purges_invisible purgedRun hinjects).2.1⟩

end Store

end DurableQueue
