import DurableQueue.Proofs.Dispatch.Balance
import DurableQueue.Proofs.Dispatch.Passage

/-!
What dispatchers counted against what the store holds.

As long as only dispatchers resolve claims, the entries that are processed are as many as all dispatchers
together counted or are about to count, and so are the entries that failed (`Settlement`).
-/

namespace DurableQueue

/-- An attempt is booked so exactly if its update was accepted and leaves its entry in that state. -/
theorem Entry.IsAnswerTo.verdictOn_eq_iff {next claim : Entry} {outcome : DispatchOutcome}
    (h : next.IsAnswerTo claim outcome) {v : Verdict} {state : EntryState} (hv : v.state? = some state)
    (answer : Except StoreError Unit) :
    Attempt.verdictOn next outcome answer = v ↔ answer = .ok () ∧ next.state = state := by
  cases answer with
  | ok u =>
    rw [Attempt.verdictOn, and_iff_right rfl]
    refine ⟨fun heq => ?_, fun heq => ?_⟩
    · rw [← heq, h.state?_verdict] at hv
      exact Option.some.inj hv
    · exact Verdict.eq_of_state?_eq (heq ▸ h.state?_verdict) hv
  | error e =>
    refine iff_of_false (fun heq => ?_) fun heq => ?_
    · subst heq
      cases e <;> cases hv
    · cases heq.1

/-- What dispatchers counted, or are about to count, as processed or failed is what the store holds. -/
structure Settlement (ds : List DispatchStats) (cs : List Call) (s : Store) : Prop where
  wellFormed : s.IsWellFormed
  settled : ∀ (v : Verdict) (state : EntryState), v.state? = some state → state.isSettled = true →
    (ds.map (·.counter v)).sum + cs.countP (·.isBooking v) = s.settled state

namespace Call

theorem isBooking_of_isQuiet {c : Call} (h : c.isQuiet = true) (v : Verdict) :
    c.isBooking v = false := by
  cases c with
  | process k stage =>
    cases stage with
    | attempting count a rest => cases h
    | _ => rfl
  | _ => rfl

theorem isBooking_of_open {k count : Nat} {a : Attempt} {rest : List Entry} (h : a.open? = some a)
    (v : Verdict) : (Call.process k (.attempting count a rest)).isBooking v = false := by
  cases a with
  | booking e v => cases h
  | _ => rfl

theorem isBooking_booking (k count : Nat) (e : Entry) (v : Verdict) (rest : List Entry) (v' : Verdict) :
    (Call.process k (.attempting count (.booking e v) rest)).isBooking v' = decide (v = v') := rfl

end Call

namespace Settlement

variable {ds : List DispatchStats} {cs : List Call} {s s' : Store} {i k : Nat}
  {d d' : DispatchStats} {c c' : Call} {u : Conduct}

theorem of_operated (h : Settlement ds cs s) (hleaves : u.leavesUpdates) (hs : s.Operated u s') :
    Settlement ds cs s' := by
  rcases hs with rfl | ⟨op, now, hop, rfl⟩
  · exact h
  · refine ⟨Store.isWellFormed_of_effect h.wellFormed (Store.effect_apply s op now),
      fun v state hv hstate => ?_⟩
    rw [h.settled v state hv hstate]
    exact (Store.settled_of_not_isUpdate h.wellFormed (Store.effect_apply s op now) (hop hleaves)
      hstate).symm

/-- A call goes on that neither comes to stand before its counter nor stood there. -/
theorem set_call (h : Settlement ds cs s) (hi : cs[i]? = some c) (hc : ∀ v, c.isBooking v = false)
    (hc' : ∀ v, c'.isBooking v = false) : Settlement ds (cs.set i c') s := by
  refine ⟨h.wellFormed, fun v state hv hstate => ?_⟩
  have hset := countP_set hi c' (·.isBooking v)
  rw [hc v, hc' v] at hset
  rw [← h.settled v state hv hstate, Nat.add_right_cancel hset]

/-- A tally changes otherwise. -/
theorem set_tally (h : Settlement ds cs s) (hk : ds[k]? = some d)
    (hcounter : ∀ v, d'.counter v = d.counter v) : Settlement (ds.set k d') cs s := by
  refine ⟨h.wellFormed, fun v state hv hstate => ?_⟩
  have hset := sum_map_set hk d' (·.counter v)
  rw [hcounter v] at hset
  rw [← h.settled v state hv hstate, Nat.add_right_cancel hset]

theorem answered (h : Settlement ds cs s) {count : Nat} {e next : Entry} {outcome : DispatchOutcome}
    {rest : List Entry} (now : Timestamp)
    (hi : cs[i]? = some (.process k (.attempting count (.storing e next outcome) rest)))
    (hnext : next.IsAnswerTo e outcome) :
    Settlement ds
      (cs.set i (.process k (.attempting count
        (.booking e (Attempt.verdictOn next outcome (s.update e next now).1)) rest)))
      (s.update e next now).2 := by
  have heffect := Store.effect_apply s (.update e next) now
  have hstore : (s.apply (.update e next) now).2 = (s.update e next now).2 :=
    Store.Outcome.snd_map _ _
  rw [hstore] at heffect
  refine ⟨Store.isWellFormed_of_effect h.wellFormed heffect, fun v state hv hstate => ?_⟩
  have hsettled := Store.settled_of_effect h.wellFormed heffect hstate
  have hset := countP_set hi (.process k (.attempting count
    (.booking e (Attempt.verdictOn next outcome (s.update e next now).1)) rest)) (·.isBooking v)
  rw [Call.isBooking_booking, Call.isBooking_of_open rfl] at hset
  have hverdict := hnext.verdictOn_eq_iff hv (s.update e next now).1
  have hsettles : Store.settles state (.update e next) (s.apply (.update e next) now).1 =
      if Attempt.verdictOn next outcome (s.update e next now).1 = v then 1 else 0 := by
    rw [Store.apply]
    rcases hupdate : s.update e next now with ⟨_ | _, after⟩
    · rw [hupdate] at hverdict
      rw [if_neg fun heq => by cases (hverdict.mp heq).1]
      rfl
    · rw [hupdate] at hverdict
      rw [and_iff_right rfl] at hverdict
      simp only [Store.Outcome.map, Store.settles, hverdict]
  rw [hsettles, ← h.settled v state hv hstate] at hsettled
  simp only [decide_eq_true_eq, Bool.false_eq_true, ↓reduceIte, Nat.add_zero] at hset
  omega

theorem counted (h : Settlement ds cs s) {count : Nat} {e : Entry} {v : Verdict} {rest : List Entry}
    (hi : cs[i]? = some (.process k (.attempting count (.booking e v) rest))) (hk : ds[k]? = some d)
    (hv : v ≠ .uncounted) (inFlight : Nat) :
    Settlement (ds.set k { d.book v with inFlight }) (cs.set i (.process k (.between count rest)))
      s := by
  refine ⟨h.wellFormed, fun v' state hstate hsettled => ?_⟩
  have hcalls := countP_set hi (.process k (.between count rest)) (·.isBooking v')
  have htallies := sum_map_set hk { d.book v with inFlight } (·.counter v')
  have hcounter : ({ d.book v with inFlight } : DispatchStats).counter v' =
      d.counter v' + if v = v' then 1 else 0 := by
    rw [← d.counter_book hv]
    cases v' <;> rfl
  have hbetween : (Call.process k (.between count rest)).isBooking v' = false := rfl
  rw [hcounter] at htallies
  rw [Call.isBooking_booking, hbetween] at hcalls
  simp only [decide_eq_true_eq, Bool.false_eq_true, ↓reduceIte, Nat.add_zero] at hcalls
  rw [← h.settled v' state hstate hsettled]
  omega

/-- Every posting keeps the settlement as long as only dispatchers resolve claims. -/
theorem posting {b b' : Books} {more : List ProcessEvent}
    (h : Settlement b.tallies b.calls b.store) (hleaves : u.leavesUpdates) (hp : Posting u b more b')
    (hcounted : ∀ i k, .counted i k .uncounted ∉ more) :
    Settlement b'.tallies b'.calls b'.store := by
  cases hp with
  | operated ds cs hs => exact h.of_operated hleaves hs
  | added ds cs s =>
    refine ⟨h.wellFormed, fun v state hv hstate => ?_⟩
    rw [← h.settled v state hv hstate, List.map_append, List.sum_append]
    cases v <;> rfl
  | asked ds cs s hc =>
    refine ⟨h.wellFormed, fun v state hv hstate => ?_⟩
    rw [← h.settled v state hv hstate, List.countP_append, List.countP_singleton,
      Call.isBooking_of_isQuiet hc]
    rfl
  | quiet ds hi hc hc' _ hs =>
    exact (h.of_operated hleaves hs).set_call hi (Call.isBooking_of_isQuiet hc)
      (Call.isBooking_of_isQuiet hc')
  | claimed es hi hk hs =>
    refine ((h.of_operated hleaves hs).set_tally hk fun v => ?_).set_call hi (fun _ => rfl) fun _ => rfl
    cases v <;> rfl
  | begun s hi hk opened =>
    refine (h.set_tally hk fun v => ?_).set_call hi (fun _ => rfl) (Call.isBooking_of_open opened)
    cases v <;> rfl
  | went ds hi opened opened' entry hs =>
    exact (h.of_operated hleaves hs).set_call hi (Call.isBooking_of_open opened)
      (Call.isBooking_of_open opened')
  | answered ds s now hi hnext => exact h.answered now hi hnext
  | @counted ds cs s i k count d e v rest hi hk =>
    have hv : v ≠ .uncounted := by
      rintro rfl
      exact hcounted i k (List.mem_singleton_self _)
    exact h.counted hi hk hv _
  | brokeDown s hi hk opened unknown =>
    refine (h.set_tally hk fun v => ?_).set_call hi (Call.isBooking_of_open opened) fun _ => rfl
    cases v <;> rfl

end Settlement

end DurableQueue
