import DurableQueue.Proofs.Dispatch.Ledger
import DurableQueue.Proofs.Lists

/-!
What dispatchers counted against what is told of their calls.

The tallies are `Balanced` when each counter is the number of attempts that were told to be counted so, as
many attempts are in flight as calls make, and each claim is counted, in the hand of a call, or left by one
that broke down. A posting keeps the balance (`Balanced.posting`), provided that it counts no attempt as
uncounted.
-/

namespace DurableQueue

namespace ProcessEvent

def isCounted (k : Nat) (v : Verdict) : ProcessEvent → Bool
  | counted _ k' v' => k' == k && v' == v
  | _ => false

/-- How many claims a dispatcher left when a call broke down. -/
def left (k : Nat) : ProcessEvent → Nat
  | brokeDown _ k' claims => if k' = k then claims.length else 0
  | _ => 0

end ProcessEvent

/-- The claims that a dispatcher left when calls broke down. -/
def leftBy (k : Nat) (log : List ProcessEvent) : Nat := (log.map (·.left k)).sum

/-- The counter that a verdict is booked on. -/
def DispatchStats.counter (s : DispatchStats) : Verdict → Nat
  | .processed => s.processed
  | .retried => s.retried
  | .failed => s.failed
  | .lostRace => s.lostRaces
  | .storeError => s.storeErrors
  | .uncounted => 0

/-- How many attempts were counted. -/
def DispatchStats.attempts (s : DispatchStats) : Nat :=
  s.processed + s.retried + s.failed + s.lostRaces + s.storeErrors

namespace DispatchStats

theorem counter_book (s : DispatchStats) {v : Verdict} (hv : v ≠ .uncounted) (v' : Verdict) :
    (s.book v).counter v' = s.counter v' + if v = v' then 1 else 0 := by
  cases v with
  | uncounted => exact absurd rfl hv
  | _ => cases v' <;> rfl

/-- Every verdict but one adds to what was counted. -/
theorem attempts_book (s : DispatchStats) {v : Verdict} (hv : v ≠ .uncounted) :
    (s.book v).attempts = s.attempts + 1 := by
  cases v with
  | uncounted => exact absurd rfl hv
  | _ =>
    simp only [book, attempts]
    omega

theorem claimed_book (s : DispatchStats) (v : Verdict) : (s.book v).claimed = s.claimed := by
  cases v <;> rfl

end DispatchStats

namespace Call

/-- Whether a call processes a claim for a dispatcher at the moment. -/
def isAttemptOf (k : Nat) : Call → Bool
  | .process k' (.attempting _ _ _) => k' == k
  | _ => false

/-- The claims of a dispatcher that a call has, with the one that it processes. -/
def inHand (k : Nat) : Call → Nat
  | .process k' (.between _ rest) => if k' = k then rest.length else 0
  | .process k' (.attempting _ _ rest) => if k' = k then rest.length + 1 else 0
  | _ => 0

/-- Whether a call stands between its update and the counter of this verdict. -/
def isBooking (v : Verdict) : Call → Bool
  | .process _ (.attempting _ (.booking _ v') _) => v' == v
  | _ => false

end Call

/-- The tally of a dispatcher; nought if it is not there. -/
def tallyAt (ds : List DispatchStats) (k : Nat) : DispatchStats := ds[k]?.getD .zero

theorem tallyAt_of_getElem? {ds : List DispatchStats} {k : Nat} {d : DispatchStats}
    (hk : ds[k]? = some d) : tallyAt ds k = d := by
  rw [tallyAt, hk, Option.getD_some]

theorem tallyAt_set_self {ds : List DispatchStats} {k : Nat} {d : DispatchStats} (hk : ds[k]? = some d)
    (d' : DispatchStats) : tallyAt (ds.set k d') k = d' := by
  rw [tallyAt, getElem?_set_of_some hk, Option.getD_some]

theorem tallyAt_set_ne {ds : List DispatchStats} {j k : Nat} (h : k ≠ j) (d' : DispatchStats) :
    tallyAt (ds.set k d') j = tallyAt ds j := by
  rw [tallyAt, List.getElem?_set_ne h, tallyAt]

theorem tallyAt_concat_zero (ds : List DispatchStats) (k : Nat) :
    tallyAt (ds ++ [.zero]) k = tallyAt ds k := by
  rw [tallyAt, tallyAt]
  rcases Nat.lt_trichotomy k ds.length with hlt | heq | hgt
  · rw [List.getElem?_append_left hlt]
  · rw [heq, List.getElem?_concat_length, List.getElem?_eq_none (Nat.le_refl _)]
    rfl
  · rw [List.getElem?_eq_none (Nat.le_of_lt hgt),
      List.getElem?_eq_none (by simpa using Nat.succ_le_of_lt hgt)]

/-- The tallies of dispatchers against what is told and the claims in hand. -/
structure Balanced (ds : List DispatchStats) (cs : List Call) (log : List ProcessEvent) : Prop where
  inFlight : ∀ k, (tallyAt ds k).inFlight = cs.countP (·.isAttemptOf k)
  counted : ∀ k v, (tallyAt ds k).counter v = log.countP (·.isCounted k v)
  claimed : ∀ k, (tallyAt ds k).claimed =
    (tallyAt ds k).attempts + (cs.map (·.inHand k)).sum + leftBy k log

namespace Balanced

variable {ds : List DispatchStats} {cs : List Call} {log more : List ProcessEvent} {i k : Nat}
  {d d' : DispatchStats} {c c' : Call}

theorem leftBy_append (k : Nat) (log more : List ProcessEvent) :
    leftBy k (log ++ more) = leftBy k log + leftBy k more := by
  rw [leftBy, List.map_append, List.sum_append]
  rfl

/-- A call goes on that has as many claims as before. -/
theorem frame (h : Balanced ds cs log) (hi : cs[i]? = some c)
    (hattempt : ∀ j, c'.isAttemptOf j = c.isAttemptOf j) (hhand : ∀ j, c'.inHand j = c.inHand j)
    (hcounted : ∀ j v, more.countP (·.isCounted j v) = 0) (hleft : ∀ j, leftBy j more = 0) :
    Balanced ds (cs.set i c') (log ++ more) where
  inFlight j := by
    have hset := countP_set hi c' (·.isAttemptOf j)
    rw [hattempt j] at hset
    rw [h.inFlight j]
    omega
  counted j v := by rw [List.countP_append, hcounted, Nat.add_zero, h.counted]
  claimed j := by
    have hset := sum_map_set hi c' (·.inHand j)
    rw [hhand j] at hset
    rw [leftBy_append, hleft, h.claimed j]
    omega

/-- A call of one dispatcher goes on, and its tally changes accordingly. -/
theorem change (h : Balanced ds cs log) (hi : cs[i]? = some c) (hk : ds[k]? = some d)
    (hattempt : ∀ j, k ≠ j → c'.isAttemptOf j = c.isAttemptOf j)
    (hhand : ∀ j, k ≠ j → c'.inHand j = c.inHand j)
    (hcounted : ∀ j, k ≠ j → ∀ v, more.countP (·.isCounted j v) = 0)
    (hleft : ∀ j, k ≠ j → leftBy j more = 0)
    (hinFlight : d'.inFlight + (if c.isAttemptOf k then 1 else 0) =
      d.inFlight + if c'.isAttemptOf k then 1 else 0)
    (hcounter : ∀ v, d'.counter v = d.counter v + more.countP (·.isCounted k v))
    (hclaimed : d'.claimed + d.attempts + c.inHand k =
      d.claimed + d'.attempts + c'.inHand k + leftBy k more) :
    Balanced (ds.set k d') (cs.set i c') (log ++ more) where
  inFlight j := by
    have hset := countP_set hi c' (·.isAttemptOf j)
    have hbefore := h.inFlight j
    by_cases hj : k = j
    · subst hj
      rw [tallyAt_of_getElem? hk] at hbefore
      rw [tallyAt_set_self hk]
      omega
    · rw [hattempt j hj] at hset
      rw [tallyAt_set_ne hj]
      omega
  counted j v := by
    have hbefore := h.counted j v
    rw [List.countP_append]
    by_cases hj : k = j
    · subst hj
      rw [tallyAt_of_getElem? hk] at hbefore
      rw [tallyAt_set_self hk, hcounter, hbefore]
    · rw [tallyAt_set_ne hj, hbefore, hcounted j hj, Nat.add_zero]
  claimed j := by
    have hset := sum_map_set hi c' (·.inHand j)
    have hbefore := h.claimed j
    rw [leftBy_append]
    by_cases hj : k = j
    · subst hj
      rw [tallyAt_of_getElem? hk] at hbefore
      rw [tallyAt_set_self hk]
      omega
    · rw [hhand j hj] at hset
      rw [tallyAt_set_ne hj, hleft j hj]
      omega

theorem added (h : Balanced ds cs log) : Balanced (ds ++ [.zero]) cs log where
  inFlight j := by rw [tallyAt_concat_zero, h.inFlight]
  counted j v := by rw [tallyAt_concat_zero, h.counted]
  claimed j := by rw [tallyAt_concat_zero, h.claimed]

/-- A call without claims in hand has none of any dispatcher. -/
theorem inHand_of_isQuiet (hc : c.isQuiet = true) (j : Nat) :
    c.inHand j = 0 ∧ c.isAttemptOf j = false := by
  cases c with
  | process k stage =>
    cases stage with
    | claiming => exact ⟨rfl, rfl⟩
    | between count es =>
      cases es with
      | nil => simp [Call.inHand, Call.isAttemptOf]
      | cons e es => cases hc
    | attempting count a rest => cases hc
  | _ => exact ⟨rfl, rfl⟩

theorem asked (h : Balanced ds cs log) (hc : c.isQuiet = true) : Balanced ds (cs ++ [c]) log where
  inFlight j := by
    rw [h.inFlight, List.countP_append, List.countP_singleton, (inHand_of_isQuiet hc j).2]
    rfl
  counted := h.counted
  claimed j := by
    rw [h.claimed, List.map_append, List.sum_append, List.map_singleton, List.sum_singleton,
      (inHand_of_isQuiet hc j).1, Nat.add_zero]

/-- An attempt in progress is counted as in flight. -/
theorem inFlight_pos (h : Balanced ds cs log) {count : Nat} {a : Attempt} {rest : List Entry}
    (hi : cs[i]? = some (.process k (.attempting count a rest))) (hk : ds[k]? = some d) :
    0 < d.inFlight := by
  rw [← tallyAt_of_getElem? hk, h.inFlight k]
  exact List.countP_pos_iff.mpr ⟨_, List.mem_of_getElem? hi, by simp [Call.isAttemptOf]⟩

/-- A posting that books no attempt as uncounted keeps the balance. -/
theorem posting {u : Conduct} {b b' : Books} (h : Balanced b.tallies b.calls log)
    (hp : Posting u b more b') (hcounted : ∀ i k, .counted i k .uncounted ∉ more) :
    Balanced b'.tallies b'.calls (log ++ more) := by
  cases hp with
  | operated ds cs _ =>
    rw [List.append_nil]
    exact h
  | added ds cs s =>
    rw [List.append_nil]
    exact h.added
  | asked ds cs s hc =>
    rw [List.append_nil]
    exact h.asked hc
  | quiet ds hi hc hc' _ _ =>
    refine h.frame hi (fun j => ?_) (fun j => ?_) (fun _ _ => rfl) fun _ => rfl
    · rw [(inHand_of_isQuiet hc j).2, (inHand_of_isQuiet hc' j).2]
    · rw [(inHand_of_isQuiet hc j).1, (inHand_of_isQuiet hc' j).1]
  | @claimed ds cs s s' i k d es hi hk _ =>
    refine h.change hi hk (fun _ _ => rfl) (fun j hj => if_neg hj) (fun _ _ _ => rfl)
      (fun _ _ => rfl) rfl (fun v => ?_) ?_
    · cases v <;> rfl
    · simp [Call.inHand, DispatchStats.attempts, leftBy]
      omega
  | @begun ds cs s i k count d a rest hi hk opened =>
    refine h.change hi hk (fun j hj => ?_) (fun j hj => ?_) (fun _ _ _ => rfl) (fun _ _ => rfl) ?_
      (fun v => ?_) ?_
    · simp [Call.isAttemptOf, hj]
    · simp [Call.inHand, hj]
    · simp [Call.isAttemptOf]
    · cases v <;> rfl
    · simp [Call.inHand, DispatchStats.attempts, leftBy, ProcessEvent.left]
  | @went ds cs s s' i k count a a' rest hi opened opened' entry _ =>
    exact h.frame hi (fun _ => rfl) (fun _ => rfl) (fun _ _ => rfl) fun _ => rfl
  | @answered ds cs s i k count e next outcome rest now hi hnext =>
    exact h.frame hi (fun _ => rfl) (fun _ => rfl) (fun _ _ => rfl) fun _ => rfl
  | @counted ds cs s i k count d e v rest hi hk =>
    have hv : v ≠ .uncounted := by
      rintro rfl
      exact hcounted i k (List.mem_singleton_self _)
    have hpos := h.inFlight_pos hi hk
    refine h.change hi hk (fun j hj => ?_) (fun j hj => ?_) (fun j hj v' => ?_) (fun _ _ => rfl) ?_
      (fun v' => ?_) ?_
    · simp [Call.isAttemptOf, hj]
    · simp [Call.inHand, hj]
    · simp [ProcessEvent.isCounted, hj]
    · simp [Call.isAttemptOf]
      omega
    · have hbook := d.counter_book hv v'
      have hsame : ({ d.book v with inFlight := d.inFlight - 1 } : DispatchStats).counter v' =
          (d.book v).counter v' := by cases v' <;> rfl
      rw [hsame, hbook]
      simp [ProcessEvent.isCounted, List.countP_cons]
    · have hattempts : ({ d.book v with inFlight := d.inFlight - 1 } : DispatchStats).attempts =
          d.attempts + 1 := d.attempts_book hv
      have hclaimed : ({ d.book v with inFlight := d.inFlight - 1 } : DispatchStats).claimed =
          d.claimed := d.claimed_book v
      rw [hattempts, hclaimed]
      simp [Call.inHand, leftBy, ProcessEvent.left]
      omega
  | @brokeDown ds cs s i k count d a rest hi hk opened unknown =>
    have hpos := h.inFlight_pos hi hk
    refine h.change hi hk (fun j hj => ?_) (fun j hj => ?_) (fun _ _ _ => rfl) (fun j hj => ?_) ?_
      (fun v => ?_) ?_
    · simp [Call.isAttemptOf, hj]
    · simp [Call.inHand, hj]
    · simp [leftBy, ProcessEvent.left, hj]
    · simp [Call.isAttemptOf]
      omega
    · cases v <;> rfl
    · simp [Call.inHand, DispatchStats.attempts, leftBy, ProcessEvent.left]

end Balanced

end DurableQueue
