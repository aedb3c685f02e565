import DurableQueue.Proofs.Dispatch.Ledger
import DurableQueue.Proofs.Lists

/-!
The passage of claims through a call.

In a `Passage` a call takes one claim after the other: it begins to process it, its update is answered, and
it is counted. It is counted as the store then has it (`Verdict.Matches`). What a run tells of a call is
its passage, up to where the call is (`Coursed`).
-/

namespace DurableQueue

/-- The state in which an attempt leaves its entry that is booked so; none if it leaves it alone. -/
def Verdict.state? : Verdict → Option EntryState
  | .processed => some .processed
  | .retried => some .available
  | .failed => some .failed
  | _ => none

theorem Verdict.eq_of_state?_eq {v v' : Verdict} {state : EntryState} (h : v.state? = some state)
    (h' : v'.state? = some state) : v = v' := by
  cases v <;> cases v' <;> first | rfl | cases h <;> cases h'

/-- The state of a live entry. -/
def Store.stateOf? (s : Store) (id : EntryId) : Option EntryState :=
  s.liveEntry? id |>.map (·.state)

/-- What the store did to answer the update of an attempt that is booked so. -/
def Verdict.Matches (v : Verdict) (claim : Entry) (answer : Except StoreError Unit)
    (before after : Store) : Prop :=
  match v with
  | .processed | .retried | .failed =>
    answer = .ok () ∧ after.stateOf? claim.id = v.state?
  | .lostRace =>
    answer = .error (.modifiedConcurrently claim.id) ∧ after = before ∧
      ∃ stored, before.liveEntry? claim.id = some stored ∧ Store.isSameClaim stored claim = false
  | .storeError =>
    (∃ e, answer = .error e ∧ ∀ id, e ≠ .modifiedConcurrently id) ∧
      after.live = before.live ∧ after.history = before.history
  | .uncounted => False

theorem Verdict.ne_uncounted_of_matches {v : Verdict} {claim : Entry} {answer : Except StoreError Unit}
    {before after : Store} (h : v.Matches claim answer before after) : v ≠ .uncounted := by
  rintro rfl
  exact h

theorem Verdict.matches_of_state? {v : Verdict} {claim : Entry} {before after : Store}
    {state : EntryState} (hv : v.state? = some state)
    (hafter : after.stateOf? claim.id = some state) :
    v.Matches claim (.ok ()) before after := by
  cases v with
  | processed | retried | failed => exact ⟨rfl, hafter.trans hv.symm⟩
  | _ => cases hv

namespace Entry.IsAnswerTo

variable {next claim : Entry} {outcome : DispatchOutcome}

/-- The record of every outcome is booked by its state. -/
theorem state?_verdict (h : next.IsAnswerTo claim outcome) :
    (Attempt.verdict next outcome).state? = some next.state := by
  obtain ⟨policy, draw, now, hnext⟩ := h
  cases outcome with
  | processed =>
    cases hnext
    rfl
  | undecodable reason =>
    cases hnext
    rfl
  | handlerFailed detail =>
    obtain ⟨decision, -, rfl⟩ := Option.map_eq_some_iff.mp hnext
    cases decision <;> rfl

theorem canMoveTo (h : next.IsAnswerTo claim outcome) :
    EntryState.inProcessing.canMoveTo next.state = true := by
  obtain ⟨policy, draw, now, hnext⟩ := h
  exact DispatchOutcome.canMoveTo_nextEntry hnext

end Entry.IsAnswerTo

namespace Store

theorem liveEntry?_replace {s : Store} {old new : Entry} (h : s.liveEntry? new.id = some old) :
    liveEntry? (s.replace new) new.id = some new := by
  simp only [replace, liveEntry?] at h ⊢
  generalize s.live = es at h
  induction es with
  | nil => cases h
  | cons e es ih =>
    by_cases he : e.id = new.id
    · simp [he]
    · simp only [List.find?_cons, List.map_cons, he, ↓reduceIte, beq_eq_false_iff_ne.mpr he] at h ⊢
      exact ih h

theorem stateOf?_resolved {s : Store} {old : Entry} {id : EntryId} (h : s.liveEntry? id = some old)
    (next : Entry) (now : Timestamp) :
    (s.replace (resolved old next now)).stateOf? id = some next.state := by
  obtain rfl : old.id = id := by simpa using List.find?_some h
  have hafter : liveEntry? (s.replace (resolved old next now)) old.id = some (resolved old next now) :=
    liveEntry?_replace h
  rw [stateOf?, hafter]
  rfl

end Store

/-- Every update of an attempt is booked as the store then has it. -/
theorem Attempt.matches_verdictOn {claim next : Entry} {outcome : DispatchOutcome}
    (h : next.IsAnswerTo claim outcome) (s : Store) (now : Timestamp) :
    (verdictOn next outcome (s.update claim next now).1).Matches claim (s.update claim next now).1 s
      (s.update claim next now).2 := by
  cases hleft : s.failuresLeft with
  | succ left =>
    have hupdate : s.update claim next now = (.error .injected, { s with failuresLeft := left }) := by
      simp only [Store.update, Store.guarded, hleft]
    rw [hupdate]
    exact ⟨⟨_, rfl, fun _ h => by cases h⟩, rfl, rfl⟩
  | zero =>
    cases hfind : s.liveEntry? claim.id with
    | none =>
      rw [Store.update_of_none hleft hfind]
      exact ⟨⟨_, rfl, fun _ h => by cases h⟩, rfl, rfl⟩
    | some stored =>
      cases hsame : Store.isSameClaim stored claim with
      | false =>
        rw [Store.update_of_lost hleft hfind hsame]
        exact ⟨rfl, rfl, stored, hfind, hsame⟩
      | true =>
        have hmove : stored.state.canMoveTo next.state = true := by
          rw [(Store.isSameClaim_iff.mp hsame).1]
          exact h.canMoveTo
        rw [Store.update_of_held hleft hfind hsame hmove]
        exact Verdict.matches_of_state? h.state?_verdict (Store.stateOf?_resolved hfind next now)

/-- Where a call is in its passage. -/
inductive ProcessPhase where
  /-- It processes no claim. -/
  | outside
  /-- It processes a claim whose update is not answered. -/
  | inside (claim : Entry)
  /-- The update was answered, and the claim is to be counted so. -/
  | answered (claim : Entry) (verdict : Verdict)
  | brokenDown

/-- What may be told of a call for a dispatcher, and where it then is. -/
inductive Passage (i k : Nat) : List ProcessEvent → ProcessPhase → Prop where
  | nil : Passage i k [] .outside
  | begun {log : List ProcessEvent} (h : Passage i k log .outside) (claim : Entry) :
    Passage i k (log ++ [.begun i k claim]) (.inside claim)
  | answered {log : List ProcessEvent} {claim next : Entry} {v : Verdict}
    {answer : Except StoreError Unit} {before after : Store} (h : Passage i k log (.inside claim))
    (hstore : v.Matches claim answer before after) :
    Passage i k (log ++ [.answered i k claim next v answer before after]) (.answered claim v)
  | counted {log : List ProcessEvent} {claim : Entry} {v : Verdict}
    (h : Passage i k log (.answered claim v)) : Passage i k (log ++ [.counted i k v]) .outside
  | brokeDown {log : List ProcessEvent} {claim : Entry} (h : Passage i k log (.inside claim))
    (rest : List Entry) : Passage i k (log ++ [.brokeDown i k (claim :: rest)]) .brokenDown

theorem Passage.brokeDown_mem {i k : Nat} {log : List ProcessEvent}
    (h : Passage i k log .brokenDown) : ∃ claims, .brokeDown i k claims ∈ log := by
  cases h with
  | brokeDown h rest => exact ⟨_, List.mem_append_right _ (List.mem_singleton_self _)⟩

namespace Call

/-- Where a call is in its passage. -/
def phase : Call → ProcessPhase
  | .process _ (.attempting _ (.booking e v) _) => .answered e v
  | .process _ (.attempting _ a _) => .inside a.entry
  | .over .panicked => .brokenDown
  | _ => .outside

theorem phase_of_isQuiet {c : Call} (h : c.isQuiet = true) : c.phase = .outside := by
  cases c with
  | process k stage =>
    cases stage with
    | attempting count a rest => cases h
    | _ => rfl
  | shutdown k stage => rfl
  | _ =>
    rename_i r
    cases r with
    | panicked => cases h
    | _ => rfl

theorem phase_of_open {k count : Nat} {a : Attempt} {rest : List Entry} (h : a.open? = some a) :
    (Call.process k (.attempting count a rest)).phase = .inside a.entry := by
  cases a with
  | booking e v => cases h
  | _ => rfl

end Call

namespace ProcessEvent

/-- What is told of one call. -/
def ofCall (i : Nat) (log : List ProcessEvent) : List ProcessEvent := log.filter fun x => x.call == i

theorem ofCall_append (i : Nat) (log more : List ProcessEvent) :
    ofCall i (log ++ more) = ofCall i log ++ ofCall i more := List.filter_append ..

theorem ofCall_self {i : Nat} {more : List ProcessEvent} (h : ∀ x ∈ more, x.call = i) :
    ofCall i more = more := List.filter_eq_self.mpr fun x hx => beq_iff_eq.mpr (h x hx)

theorem ofCall_of_ne {i j : Nat} {more : List ProcessEvent} (h : ∀ x ∈ more, x.call = i)
    (hij : i ≠ j) : ofCall j more = [] := by
  refine List.filter_eq_nil_iff.mpr fun x hx => ?_
  rw [h x hx, beq_iff_eq]
  exact hij

end ProcessEvent

/-- A call has told its passage, up to where it is. -/
def Call.HasTold (c : Call) (i : Nat) (log : List ProcessEvent) : Prop :=
  ∃ k, (∀ k' ∈ c.node?, k' = k) ∧ Passage i k (ProcessEvent.ofCall i log) c.phase

/-- All calls have told their passages, and nothing is told of others. -/
structure Coursed (cs : List Call) (log : List ProcessEvent) : Prop where
  told : ∀ (i : Nat) (c : Call), cs[i]? = some c → c.HasTold i log
  untold : ∀ i, cs[i]? = none → ProcessEvent.ofCall i log = []

namespace Coursed

variable {cs : List Call} {log more : List ProcessEvent} {i k : Nat} {c c' : Call}

theorem asked (h : Coursed cs log) (hc : c.isQuiet = true) : Coursed (cs ++ [c]) log where
  told j d hj := by
    rcases getElem?_snoc_eq_some_iff.mp hj with hj | ⟨rfl, rfl⟩
    · exact h.told j d hj
    · refine ⟨c.node?.getD 0, fun k hk => ?_, ?_⟩
      · rw [hk]
        rfl
      · rw [h.untold _ (List.getElem?_eq_none (Nat.le_refl _)), Call.phase_of_isQuiet hc]
        exact .nil
  untold j hj := by
    rw [List.getElem?_eq_none_iff, List.length_append] at hj
    exact h.untold j (List.getElem?_eq_none (by omega))

/-- One call goes on in its passage. -/
theorem change (h : Coursed cs log) (hi : cs[i]? = some c) (hmore : ∀ x ∈ more, x.call = i)
    (hpassage : ∀ k told, (∀ k' ∈ c.node?, k' = k) → Passage i k told c.phase →
      (∀ k' ∈ c'.node?, k' = k) ∧ Passage i k (told ++ more) c'.phase) :
    Coursed (cs.set i c') (log ++ more) where
  told j d hj := by
    rw [Call.HasTold, ProcessEvent.ofCall_append]
    by_cases hij : i = j
    · subst hij
      rw [getElem?_set_of_some hi] at hj
      cases hj
      obtain ⟨k, hk, htold⟩ := h.told i c hi
      rw [ProcessEvent.ofCall_self hmore]
      exact ⟨k, hpassage k _ hk htold⟩
    · rw [List.getElem?_set_ne hij] at hj
      rw [ProcessEvent.ofCall_of_ne hmore hij, List.append_nil]
      exact h.told j d hj
  untold j hj := by
    rw [List.getElem?_eq_none_iff, List.length_set] at hj
    have hij : i ≠ j := by
      rintro rfl
      exact absurd (List.getElem?_eq_some_iff.mp hi).1 (Nat.not_lt.mpr hj)
    rw [ProcessEvent.ofCall_append, h.untold j (List.getElem?_eq_none hj),
      ProcessEvent.ofCall_of_ne hmore hij]
    rfl

/-- A call stays in its phase, and nothing is told. -/
theorem frame (h : Coursed cs log) (hi : cs[i]? = some c) (hphase : c'.phase = c.phase)
    (hnode : ∀ k ∈ c'.node?, k ∈ c.node?) : Coursed (cs.set i c') log := by
  rw [← List.append_nil log]
  refine h.change hi (fun _ hx => by cases hx) fun k told hk htold => ?_
  rw [List.append_nil, hphase]
  exact ⟨fun k' hk' => hk k' (hnode k' hk'), htold⟩

/-- Every posting goes on in the passage of its call. -/
theorem posting {u : Conduct} {b b' : Books} (h : Coursed b.calls log) (hp : Posting u b more b') :
    Coursed b'.calls (log ++ more) := by
  cases hp with
  | operated ds cs _ =>
    rw [List.append_nil]
    exact h
  | added ds cs s =>
    rw [List.append_nil]
    exact h
  | asked ds cs s hc =>
    rw [List.append_nil]
    exact h.asked hc
  | quiet ds hi hc hc' hnode _ =>
    rw [List.append_nil]
    refine h.frame hi ((Call.phase_of_isQuiet hc').trans (Call.phase_of_isQuiet hc).symm) ?_
    rw [hnode]
    exact nofun
  | claimed es hi hk _ =>
    rw [List.append_nil]
    exact h.frame hi rfl fun _ hk => hk
  | @begun ds cs s i k count d a rest hi hk opened =>
    refine h.change hi (by simp [ProcessEvent.call]) fun k' told hnode htold => ?_
    obtain rfl := hnode k rfl
    rw [Call.phase_of_open opened]
    exact ⟨hnode, htold.begun a.entry⟩
  | went ds hi opened opened' entry _ =>
    rw [List.append_nil]
    refine h.frame hi ?_ fun _ hk => hk
    rw [Call.phase_of_open opened, Call.phase_of_open opened', entry]
  | @answered ds cs s i k count e next outcome rest now hi hnext =>
    refine h.change hi (by simp [ProcessEvent.call]) fun k' told hnode htold => ?_
    obtain rfl := hnode k rfl
    exact ⟨hnode, htold.answered (Attempt.matches_verdictOn hnext s now)⟩
  | @counted ds cs s i k count d e v rest hi hk =>
    refine h.change hi (by simp [ProcessEvent.call]) fun k' told hnode htold => ?_
    obtain rfl := hnode k rfl
    exact ⟨hnode, Passage.counted htold⟩
  | @brokeDown ds cs s i k count d a rest hi hk opened unknown =>
    refine h.change hi (by simp [ProcessEvent.call]) fun k' told hnode htold => ?_
    obtain rfl := hnode k rfl
    rw [Call.phase_of_open opened] at htold
    exact ⟨nofun, htold.brokeDown rest⟩

/-- No posting counts a claim as uncounted. -/
theorem not_uncounted {u : Conduct} {b b' : Books} (h : Coursed b.calls log)
    (hp : Posting u b more b') (i k : Nat) : .counted i k .uncounted ∉ more := by
  intro hmem
  cases hp with
  | @counted ds cs s i' k' count d e v rest hi hk =>
    cases List.mem_singleton.mp hmem
    obtain ⟨_, -, htold⟩ := h.told i _ hi
    generalize ProcessEvent.ofCall i log = told at htold
    cases htold with
    | answered _ hstore => exact Verdict.ne_uncounted_of_matches hstore rfl
  | _ => simp at hmem

end Coursed

end DurableQueue
