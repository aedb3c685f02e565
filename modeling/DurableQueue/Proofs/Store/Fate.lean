import DurableQueue.Proofs.Store.WellFormed

/-!
What becomes of one entry in one operation.

An operation and its answer tell which entries were claimed (`StoreOp.claims`) and which were taken
out of processing (`StoreOp.takeOuts`). `Entry.Fate` lists what can become of a stored entry, and
`stored_of_effect` says that every stored entry meets one fate and that only an append adds one.
-/

namespace DurableQueue

namespace StoreOp

/-- The numbers of the entries that an answered operation claimed. -/
def claims : StoreOp → Except StoreError StoreAnswer → List EntryId
  | .claim _ _ _, .ok (.entries es) => es.map Entry.id
  | _, _ => []

/-- The numbers of the entries that an answered operation took out of processing, each with the
state it went to. -/
def takeOuts : StoreOp → Except StoreError StoreAnswer → List (EntryId × EntryState)
  | .update claimed next, .ok _ => [(claimed.id, next.state)]
  | .reap _, .ok (.entries es) => es.map fun e => (e.id, e.state)
  | .release _, .ok (.entries es) => es.map fun e => (e.id, e.state)
  | _, _ => []

@[simp] theorem claims_error (op : StoreOp) (e : StoreError) : op.claims (.error e) = [] := by
  cases op <;> rfl

@[simp] theorem takeOuts_error (op : StoreOp) (e : StoreError) : op.takeOuts (.error e) = [] := by
  cases op <;> rfl

theorem claims_of_isReading {op : StoreOp} (h : Store.isReading op = true)
    (a : Except StoreError StoreAnswer) : op.claims a = [] := by
  cases op <;> first | rfl | cases h

theorem takeOuts_of_isReading {op : StoreOp} (h : Store.isReading op = true)
    (a : Except StoreError StoreAnswer) : op.takeOuts a = [] := by
  cases op <;> first | rfl | cases h

end StoreOp

/-- What an answered operation makes of an entry. -/
inductive Entry.Fate (now : Timestamp) (op : StoreOp) (a : Except StoreError StoreAnswer)
    (e : Entry) : Entry → Prop where
  | kept (unclaimed : e.id ∉ op.claims a) (untaken : ∀ t, (e.id, t) ∉ op.takeOuts a) :
    Fate now op a e e
  | claimed {count : Nat} {claimer : NodeId} {owner : Option NodeId} {es : List Entry}
    (hop : op = .claim count claimer owner) (ha : a = .ok (.entries es))
    (wanted : Store.isWanted owner now e = true) (listed : e.claimedBy claimer now ∈ es) :
    Fate now op a e (e.claimedBy claimer now)
  | resolved {claim next : Entry} (hop : op = .update claim next) (ha : a = .ok .done)
    (hid : claim.id = e.id) (same : Store.isSameClaim e claim = true)
    (move : e.state.canMoveTo next.state = true) :
    Fate now op a e (Store.resolved e next now)
  | reaped {policy : ReapPolicy} {cutoff : Timestamp} {es : List Entry}
    (hop : op = .reap policy) (ha : a = .ok (.entries es)) (hc : policy.cutoff now = .ok cutoff)
    (stale : e.isStaleClaim cutoff = true) (listed : e.reaped policy now ∈ es)
    (only : ∀ f ∈ es, f.id = e.id → f = e.reaped policy now) :
    Fate now op a e (e.reaped policy now)
  | released {owner : NodeId} {es : List Entry}
    (hop : op = .release owner) (ha : a = .ok (.entries es)) (held : e.isHeldBy owner = true)
    (listed : e.released now ∈ es) (only : ∀ f ∈ es, f.id = e.id → f = e.released now) :
    Fate now op a e (e.released now)

namespace Store

variable {s s' : Store} {op : StoreOp} {now : Timestamp} {a : Except StoreError StoreAnswer}

theorem isSameClaim_iff {e claim : Entry} :
    isSameClaim e claim = true ↔ e.state = .inProcessing ∧
      e.processingOwner = claim.processingOwner ∧ e.updatedTime = claim.updatedTime := by
  simp [isSameClaim]

theorem isWanted_iff {owner : Option NodeId} {e : Entry} :
    isWanted owner now e = true ↔
      e.isClaimableAt now = true ∧ ∀ node, owner = some node → e.creatingOwner = node := by
  cases owner <;> simp [isWanted]

/-- When an operation answers the entries it changed, an entry whose number is answered is one that
passed the test. -/
theorem test_of_listed (h : s.IsWellFormed) {p : Entry → Prop} {g : Entry → Entry}
    (hc : ∀ e, (g e).id = e.id) {es : List Entry}
    (hes : ∀ f ∈ es, ∃ e ∈ s.live, p e ∧ f = g e) {e f : Entry} (he : e ∈ s.stored)
    (hf : f ∈ es) (hid : f.id = e.id) : p e ∧ f = g e := by
  obtain ⟨e', he', hp, rfl⟩ := hes f hf
  have heq : e' = e := h.eq_of_id_eq (List.mem_append_left _ he') he ((hc e').symm.trans hid)
  subst heq
  exact ⟨hp, rfl⟩

/-- Changing only entries that are still in circulation leaves the purged ones alone. -/
theorem stored_map (h : s.IsWellFormed) {f : Entry → Entry}
    (hf : ∀ e ∈ s.stored, e.state.isTerminal = true → f e = e)
    (hlive : s'.live = s.live.map f) (hhistory : s'.history = s.history) :
    s'.stored = s.stored.map f := by
  have hold : s.history.map f = s.history := by
    refine (List.map_congr_left fun e he => ?_).trans (List.map_id s.history)
    exact hf e (List.mem_append_right _ he) (h.retired e he)
  rw [stored, stored, List.map_append, hlive, hhistory, hold]

theorem mem_changeWhere_iff {test : Entry → Bool} {change : Entry → Entry} {f : Entry} :
    f ∈ (s.changeWhere test change).1 ↔ ∃ e ∈ s.live, test e = true ∧ f = change e := by
  simp only [changeWhere, List.mem_map, List.mem_filter]
  constructor
  · rintro ⟨e, ⟨he, ht⟩, rfl⟩
    exact ⟨e, he, ht, rfl⟩
  · rintro ⟨e, he, ht, rfl⟩
    exact ⟨e, ⟨he, ht⟩, rfl⟩

/-- The fate of an entry that no answer names. -/
theorem fate_kept_of_unlisted {e : Entry} {es : List Entry} (hclaims : op.claims a ⊆ es.map Entry.id)
    (htakes : ∀ p ∈ op.takeOuts a, p.1 ∈ es.map Entry.id) (hout : ∀ f ∈ es, f.id ≠ e.id) :
    Entry.Fate now op a e e := by
  have hid : e.id ∉ es.map Entry.id := by
    intro hin
    obtain ⟨f, hf, hfe⟩ := List.mem_map.mp hin
    exact hout f hf hfe
  exact .kept (fun hin => hid (hclaims hin)) fun t hin => hid (htakes _ hin)

theorem stored_claimed (h : s.IsWellFormed) (now : Timestamp) (count : Nat) (claimer : NodeId)
    (owner : Option NodeId) :
    ∃ f : Entry → Entry,
      stored { s with live := (claimFirst claimer owner now count s.live).2 } = s.stored.map f ∧
      ∀ e ∈ s.stored, Entry.Fate now (.claim count claimer owner)
        (.ok (.entries (claimFirst claimer owner now count s.live).1)) e (f e) := by
  let taken := (s.live.filter (isWanted owner now)).take count
  have htaken : ∀ e ∈ taken, e ∈ s.live ∧ isWanted owner now e = true := fun e he =>
    List.mem_filter.mp (List.mem_of_mem_take he)
  have hanswer : ∀ f ∈ (claimFirst claimer owner now count s.live).1,
      ∃ e ∈ s.live, e ∈ taken ∧ f = e.claimedBy claimer now := by
    intro f hf
    rw [claimFirst_fst] at hf
    obtain ⟨e, he, rfl⟩ := List.mem_map.mp hf
    exact ⟨e, (htaken e he).1, he, rfl⟩
  refine ⟨fun e => if e ∈ taken then e.claimedBy claimer now else e, ?_, ?_⟩
  · refine stored_map h ?_ (claimFirst_snd _ _ _ _ _ h.nodup_live) rfl
    intro e _ ht
    refine if_neg fun he => ?_
    have hw := (Entry.isClaimableAt_iff.mp (isWanted_iff.mp (htaken e he).2).1).1
    rw [hw] at ht
    cases ht
  · intro e he
    by_cases hin : e ∈ taken
    · simp only [hin, ↓reduceIte]
      refine .claimed rfl rfl (htaken e hin).2 ?_
      rw [claimFirst_fst]
      exact List.mem_map_of_mem hin
    · simp only [hin, ↓reduceIte]
      refine fate_kept_of_unlisted (List.Subset.refl _) (by simp [StoreOp.takeOuts]) ?_
      intro f hf hid
      exact hin (test_of_listed (g := (·.claimedBy claimer now)) h (fun _ => rfl) hanswer
        he hf hid).1

/-- The operations that change every live entry passing a test. -/
theorem stored_changed (h : s.IsWellFormed) {p : Entry → Bool} {g : Entry → Entry}
    (hc : ∀ e, (g e).id = e.id)
    (htest : ∀ e, p e = true → e.state = .inProcessing)
    (hfate : ∀ e, p e = true → g e ∈ (s.changeWhere p g).1 →
      (∀ f ∈ (s.changeWhere p g).1, f.id = e.id → f = g e) →
      Entry.Fate now op (.ok (.entries (s.changeWhere p g).1)) e (g e))
    (hclaims : op.claims (.ok (.entries (s.changeWhere p g).1)) = [])
    (htakes : op.takeOuts (.ok (.entries (s.changeWhere p g).1)) =
      (s.changeWhere p g).1.map fun e => (e.id, e.state)) :
    ∃ f : Entry → Entry, (s.changeWhere p g).2.stored = s.stored.map f ∧
      ∀ e ∈ s.stored,
        Entry.Fate now op (.ok (.entries (s.changeWhere p g).1)) e (f e) := by
  have honly : ∀ e ∈ s.stored, ∀ f ∈ (s.changeWhere p g).1, f.id = e.id →
      p e = true ∧ f = g e := fun e he f hf hid =>
    test_of_listed (p := (p · = true)) h hc (fun f hf => mem_changeWhere_iff.mp hf) he hf hid
  refine ⟨fun e => if p e then g e else e, ?_, ?_⟩
  · refine stored_map h ?_ rfl rfl
    intro e _ ht
    refine if_neg fun he => ?_
    rw [htest e he] at ht
    cases ht
  · intro e he
    by_cases ht : p e = true
    · simp only [ht, ↓reduceIte]
      have hlive : e ∈ s.live := h.mem_live_of_not_isTerminal he (by rw [htest e ht]; rfl)
      exact hfate e ht (mem_changeWhere_iff.mpr ⟨e, hlive, ht, rfl⟩) fun f hf hid =>
        (honly e he f hf hid).2
    · simp only [ht, Bool.false_eq_true, ↓reduceIte]
      refine fate_kept_of_unlisted (by simp [hclaims]) ?_ fun f hf hid => ht (honly e he f hf hid).1
      intro q hq
      rw [htakes] at hq
      obtain ⟨f, hf, rfl⟩ := List.mem_map.mp hq
      exact List.mem_map_of_mem hf

theorem stored_resolved (h : s.IsWellFormed) (now : Timestamp) {claim next old : Entry}
    (found : s.liveEntry? claim.id = some old) (same : isSameClaim old claim = true)
    (move : old.state.canMoveTo next.state = true) :
    ∃ f : Entry → Entry, (s.replace (resolved old next now)).stored = s.stored.map f ∧
      ∀ e ∈ s.stored, Entry.Fate now (.update claim next) (.ok .done) e (f e) := by
  have hmem : old ∈ s.stored := List.mem_append_left _ (List.mem_of_find?_eq_some found)
  have hid : old.id = claim.id := by simpa using List.find?_some found
  have hold : ∀ e ∈ s.stored, e.id = old.id → e = old := fun e he => h.eq_of_id_eq he hmem
  refine ⟨fun e => if e.id = old.id then resolved old next now else e, ?_, ?_⟩
  · refine stored_map h ?_ rfl rfl
    intro e he ht
    refine if_neg fun heq => ?_
    rw [hold e he heq, (isSameClaim_iff.mp same).1] at ht
    cases ht
  · intro e he
    by_cases heq : e.id = old.id
    · simp only [heq, ↓reduceIte]
      have := hold e he heq
      subst this
      exact .resolved rfl rfl hid.symm same move
    · simp only [heq, ↓reduceIte]
      refine .kept (by simp [StoreOp.claims]) fun t hin => ?_
      have hclaim : e.id = claim.id := by
        simp only [StoreOp.takeOuts, List.mem_singleton, Prod.mk.injEq] at hin
        exact hin.1
      exact heq (hclaim.trans hid.symm)

/-- Every stored entry meets one fate, and nothing but an append adds an entry. -/
theorem stored_of_effect (h : s.IsWellFormed) (he : Effect now s op a s') :
    (∃ f : Entry → Entry, s'.stored.Perm (s.stored.map f) ∧
      ∀ e ∈ s.stored, Entry.Fate now op a e (f e)) ∨
    ∃ new, op = .append new ∧ a = .ok (.entry (.ofNew ⟨s.lastId + 1⟩ new now)) ∧
      s'.stored.Perm (Entry.ofNew ⟨s.lastId + 1⟩ new now :: s.stored) := by
  cases he with
  | failed e left =>
    refine .inl ⟨id, ?_, fun e _ => .kept (by simp) (by simp)⟩
    rw [List.map_id]
    exact .refl _
  | read hr b left =>
    refine .inl ⟨id, ?_, fun e _ => ?_⟩
    · rw [List.map_id]
      exact .refl _
    · exact .kept (by simp [StoreOp.claims_of_isReading hr])
        (by simp [StoreOp.takeOuts_of_isReading hr])
  | appended new =>
    refine .inr ⟨new, rfl, rfl, ?_⟩
    simp only [stored, List.append_assoc, List.singleton_append]
    exact List.perm_middle
  | claimed count claimer owner =>
    obtain ⟨f, hs, hf⟩ := stored_claimed h now count claimer owner
    exact .inl ⟨f, hs ▸ .refl _, hf⟩
  | resolved found same move =>
    obtain ⟨f, hs, hf⟩ := stored_resolved h now found same move
    exact .inl ⟨f, hs ▸ .refl _, hf⟩
  | reaped hc =>
    obtain ⟨f, hs, hf⟩ := stored_changed (g := (·.reaped _ now)) h (fun _ => rfl)
      (fun e he => (Entry.isStaleClaim_iff.mp he).1)
      (fun e ht hl ho => .reaped rfl rfl hc ht hl ho) rfl rfl
    exact .inl ⟨f, hs ▸ .refl _, hf⟩
  | released owner =>
    obtain ⟨f, hs, hf⟩ := stored_changed (g := (·.released now)) h (fun _ => rfl)
      (fun e he => (Entry.isHeldBy_iff.mp he).1)
      (fun e ht hl ho => .released rfl rfl ht hl ho) rfl rfl
    exact .inl ⟨f, hs ▸ .refl _, hf⟩
  | purged olderThan =>
    refine .inl ⟨id, ?_, fun e _ => .kept (by simp [StoreOp.claims]) (by simp [StoreOp.takeOuts])⟩
    rw [List.map_id]
    exact perm_stored_purged s (isPurgeable olderThan)

end Store

end DurableQueue
