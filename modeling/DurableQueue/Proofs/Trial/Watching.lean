import DurableQueue.Trial.Wait
import Mathlib.Data.Nat.Find
import Mathlib.Data.List.Range

/-!
What a watch sees up to its time limit.

A watch looks at nought, at ten milliseconds, at twenty and so on. It goes on after a look that shows something else
before the limit (`Watch.GoesOn`), and the first look after which it does not go on ends it (`Watch.run_eq`). The
limit counts only after a look, so there always is a look at or after it, and what has come about by the limit and
stays is seen, whatever the limit is (`Watch.watch_sees_everything`).
-/

namespace DurableQueue.Trial

/-- How a look that shows this ends a watch, if it ends it. -/
def Sight.ending {ε α : Type} : Sight ε α → WatchResult ε α
  | met => .met
  | notYet seen => .expired seen
  | failed e => .failed e

namespace Watch

variable {σ ε α : Type} {limit : Span} {look : Nat → σ → Sight ε α × σ} {s : σ} {k n : Nat}

/-- The nanoseconds that have passed at the look of a number. -/
def nanosAt (k : Nat) : Nat := k * interval * 1000000

/-- The state before the look of a number, if a watch gets that far. -/
def stateAt (look : Nat → σ → Sight ε α × σ) (s : σ) : Nat → σ
  | 0 => s
  | k + 1 => (look (k * interval) (stateAt look s k)).2

/-- What the look of a number shows, if a watch gets that far. -/
def sightAt (look : Nat → σ → Sight ε α × σ) (s : σ) (k : Nat) : Sight ε α :=
  (look (k * interval) (stateAt look s k)).1

/-- Whether a watch goes on after the look of a number. -/
def GoesOn (limit : Span) (look : Nat → σ → Sight ε α × σ) (s : σ) (k : Nat) : Prop :=
  (∃ seen, sightAt look s k = .notYet seen) ∧ nanosAt k < limit.nanos

/-- Whether a watch can come to the look of a number: the ones before it are made before the limit. -/
def Reaches (limit : Span) (k : Nat) : Prop := ∀ j < k, nanosAt j < limit.nanos

/-- The same looks, each of which notes its millisecond. -/
def noted (look : Nat → σ → Sight ε α × σ) (now : Nat) (s : σ × List Nat) : Sight ε α × σ × List Nat :=
  ((look now s.1).1, (look now s.1).2, s.2 ++ [now])

theorem run_of_goesOn (h : GoesOn limit look s k) :
    run limit look (k * interval) k (stateAt look s k) =
      run limit look ((k + 1) * interval) (k + 1) (stateAt look s (k + 1)) := by
  obtain ⟨⟨seen, hseen⟩, hbefore⟩ := h
  have hearly : k * interval * 1000000 < limit.nanos := hbefore
  have hlook : look (k * interval) (stateAt look s k) = (.notYet seen, stateAt look s (k + 1)) :=
    Prod.ext hseen rfl
  have hnext : k * interval + interval = (k + 1) * interval := (Nat.succ_mul k interval).symm
  rw [run, hlook]
  simp only [if_neg (Nat.not_le.mpr hearly), hnext]

theorem run_of_not_goesOn (h : ¬GoesOn limit look s k) :
    run limit look (k * interval) k (stateAt look s k) =
      ((sightAt look s k).ending, k + 1, k * interval, stateAt look s (k + 1)) := by
  have hlook : look (k * interval) (stateAt look s k) = (sightAt look s k, stateAt look s (k + 1)) := rfl
  rw [run, hlook]
  cases hsight : sightAt look s k with
  | met => rfl
  | failed e => rfl
  | notYet seen =>
    have hlate : limit.nanos ≤ k * interval * 1000000 := Nat.not_lt.mp fun hearly => h ⟨⟨seen, hsight⟩, hearly⟩
    simp only [if_pos hlate]
    rfl

/-- A watch that goes on after each of the first looks comes to the next one. -/
theorem run_of_forall_goesOn (h : ∀ j < k, GoesOn limit look s j) :
    run limit look 0 0 s = run limit look (k * interval) k (stateAt look s k) := by
  induction k with
  | zero =>
    rw [Nat.zero_mul]
    rfl
  | succ k ih =>
    calc run limit look 0 0 s = run limit look (k * interval) k (stateAt look s k) :=
          ih fun j hj => h j (Nat.lt_succ_of_lt hj)
      _ = run limit look ((k + 1) * interval) (k + 1) (stateAt look s (k + 1)) :=
          run_of_goesOn (h k k.lt_succ_self)

/-- No watch goes on for ever. -/
theorem exists_last (limit : Span) (look : Nat → σ → Sight ε α × σ) (s : σ) :
    ∃ n, (∀ j < n, GoesOn limit look s j) ∧ ¬GoesOn limit look s n := by
  classical
  have hends : ∃ n, ¬GoesOn limit look s n := by
    refine ⟨limit.nanos, fun h => ?_⟩
    have hearly : limit.nanos * interval * 1000000 < limit.nanos := h.2
    simp only [interval] at hearly
    omega
  exact ⟨Nat.find hends, fun j hj => Decidable.not_not.mp (Nat.find_min hends hj), Nat.find_spec hends⟩

/-- A watch ends with the first look after which it does not go on. -/
theorem run_eq (hearlier : ∀ j < n, GoesOn limit look s j) (hlast : ¬GoesOn limit look s n) :
    run limit look 0 0 s = ((sightAt look s n).ending, n + 1, n * interval, stateAt look s (n + 1)) := by
  rw [run_of_forall_goesOn hearlier, run_of_not_goesOn hlast]

theorem stateAt_noted (look : Nat → σ → Sight ε α × σ) (s : σ) (k : Nat) :
    stateAt (noted look) (s, []) k = (stateAt look s k, (List.range k).map (· * interval)) := by
  induction k with
  | zero => rfl
  | succ k ih => simp only [stateAt, ih, noted, List.range_succ, List.map_append, List.map_cons, List.map_nil]

theorem sightAt_noted (look : Nat → σ → Sight ε α × σ) (s : σ) (k : Nat) :
    sightAt (noted look) (s, []) k = sightAt look s k := by
  simp only [sightAt, stateAt_noted, noted]

theorem goesOn_noted : GoesOn limit (noted look) (s, []) k ↔ GoesOn limit look s k := by
  simp only [GoesOn, sightAt_noted]

/-- What a watch that ends with the look of a number has looked at and how it ends. It looks every interval, and
makes no look once one was made at or after the limit. What it waits for is met if a look shows it that can be
made, and then by the first such look; else it expires, at or after the limit. -/
structure IsWatched (limit : Span) (look : Nat → σ → Sight ε α × σ) (s : σ) (result : WatchResult ε α) (n : Nat) :
    Prop where
  ran : run limit look 0 0 s = (result, n + 1, n * interval, stateAt look s (n + 1))
  noted : run limit (noted look) 0 0 (s, []) =
    (result, n + 1, n * interval, stateAt look s (n + 1), (List.range (n + 1)).map (· * interval))
  reaches : Reaches limit n
  met_iff : result = .met ↔ ∃ k, Reaches limit k ∧ sightAt look s k = .met
  at_once : result = .met → sightAt look s n = .met ∧ ∀ k < n, sightAt look s k ≠ .met
  expired : result ≠ .met →
    limit.nanos ≤ nanosAt n ∧ ∃ seen, sightAt look s n = .notYet seen ∧ result = .expired seen
  steady : ∀ t ≤ limit.nanos, (∀ k, t ≤ nanosAt k → sightAt look s k = .met) → result = .met

/-- A watch none of whose looks fails ends with one of them. -/
theorem exists_isWatched (hreads : ∀ k e, Reaches limit k → sightAt look s k ≠ .failed e) :
    ∃ result n, IsWatched limit look s result n := by
  obtain ⟨n, hearlier, hlast⟩ := exists_last limit look s
  have hreaches : Reaches limit n := fun j hj => (hearlier j hj).2
  have hbefore : ∀ k < n, sightAt look s k ≠ .met := by
    intro k hk hmet
    obtain ⟨⟨seen, hseen⟩, -⟩ := hearlier k hk
    rw [hmet] at hseen
    cases hseen
  have hran := run_eq hearlier hlast
  have hnoted := run_eq (fun j hj => goesOn_noted.mpr (hearlier j hj)) fun h => hlast (goesOn_noted.mp h)
  rw [sightAt_noted, stateAt_noted] at hnoted
  cases hsight : sightAt look s n with
  | failed e => exact absurd hsight (hreads n e hreaches)
  | met =>
    rw [hsight] at hran hnoted
    have hmet : (Sight.met : Sight ε α).ending = .met := rfl
    exact ⟨_, n, hran, hnoted, hreaches, ⟨fun _ => ⟨n, hreaches, hsight⟩, fun _ => hmet⟩,
      fun _ => ⟨hsight, hbefore⟩, fun h => absurd hmet h, fun _ _ _ => hmet⟩
  | notYet seen =>
    rw [hsight] at hran hnoted
    -- the limit has passed, so no look that could show more is left
    have hlate : limit.nanos ≤ nanosAt n := Nat.not_lt.mp fun hearly => hlast ⟨⟨seen, hsight⟩, hearly⟩
    have hnever : ∀ k, Reaches limit k → sightAt look s k ≠ .met := by
      intro k hk hmet
      rcases Nat.lt_trichotomy k n with hlt | rfl | hgt
      · exact hbefore k hlt hmet
      · rw [hsight] at hmet
        cases hmet
      · exact absurd (hk n hgt) (Nat.not_lt.mpr hlate)
    have hexpired : (Sight.notYet seen : Sight ε α).ending ≠ .met := nofun
    refine ⟨_, n, hran, hnoted, hreaches, ⟨fun h => absurd h hexpired, ?_⟩, fun h => absurd h hexpired,
      fun _ => ⟨hlate, seen, hsight, rfl⟩, ?_⟩
    · rintro ⟨k, hk, hmet⟩
      exact absurd hmet (hnever k hk)
    · intro t ht hstays
      exact absurd (hstays n (ht.trans hlate)) (hnever n hreaches)

/-- What a look for a state shows of the entry with which a store answers. -/
def shown (state : EntryState) : Except StoreError (Option Entry) → Sight StoreError (Option EntryState)
  | .error e => .failed e
  | .ok found => if found.map Entry.state = some state then .met else .notYet (found.map Entry.state)

theorem shown_eq_met_iff {state : EntryState} {answer : Except StoreError (Option Entry)} :
    shown state answer = .met ↔ ∃ e, answer = .ok (some e) ∧ e.state = state := by
  cases answer with
  | error e => simp [shown]
  | ok found =>
    cases found with
    | none => simp [shown]
    | some e => by_cases h : e.state = state <;> simp [shown, h]

theorem shown_ne_failed {state : EntryState} {found : Option Entry} {e : StoreError} :
    shown state (.ok found) ≠ .failed e := by
  unfold shown
  dsimp only
  split
  · nofun
  · nofun

/-- A look for a state shows the entry as the watched store has it by then. -/
theorem fst_look (id : EntryId) (state : EntryState) (now : Nat) (w : WatchedStore) :
    (w.look id state now).1 = shown state ((w.catchUp now).store.find id).1 := by
  simp only [WatchedStore.look]
  split
  · rename_i e store hfind
    rw [hfind]
    rfl
  · rename_i found store hfind
    rw [hfind]
    rfl

/-- An empty store before anything happens to it. -/
def WatchedStore.opening (start : Timestamp) (incidents : List (Nat × Incident)) : WatchedStore :=
  ⟨start, .empty, [], agendaOf incidents⟩

/-- Whatever is watched, and however it changes between the looks: a watch for a condition, and a watch for the
state of an entry whose reads do not fail, look every ten milliseconds up to the first look at or after the limit,
and see what any of these looks shows. -/
theorem watch_sees_everything (limit : Span) :
    (∀ {σ : Type} (look : Nat → σ → Sight Empty Unit × σ) (s : σ), ∃ result n, IsWatched limit look s result n) ∧
    ∀ {σ : Type} (id : EntryId) (state : EntryState) (stores : Nat → σ → Store)
      (look : Nat → σ → Sight StoreError (Option EntryState) × σ) (s : σ),
      (∀ now s, (look now s).1 = shown state ((stores now s).find id).1) →
      (∀ k, Reaches limit k → ∃ found, ((stores (k * interval) (stateAt look s k)).find id).1 = .ok found) →
      (∃ result n, IsWatched limit look s result n) ∧
      ∀ k, sightAt look s k = .met ↔
        ∃ e, ((stores (k * interval) (stateAt look s k)).find id).1 = .ok (some e) ∧ e.state = state := by
  refine ⟨fun look s => exists_isWatched fun k e => e.elim, ?_⟩
  intro σ id state stores look s hlook hreads
  have hsight (k : Nat) :
      sightAt look s k = shown state ((stores (k * interval) (stateAt look s k)).find id).1 := hlook _ _
  refine ⟨exists_isWatched fun k e hk => ?_, fun k => ?_⟩
  · obtain ⟨found, hfound⟩ := hreads k hk
    rw [hsight, hfound]
    exact shown_ne_failed
  · rw [hsight]
    exact shown_eq_met_iff

/-- A job that is posted at once, claimed after five milliseconds and done after twenty. -/
def watchedJob : WatchedStore :=
  .opening .epoch [(0, .append ⟨⟨"job", []⟩, ⟨"a"⟩, .none⟩), (5, .claim ⟨"b"⟩), (20, .finish .processed)]

theorem reaches_fifteenMillis_iff : Reaches (.ofMillis 15) k ↔ k ≤ 2 := by
  constructor
  · intro hk
    by_contra hgt
    exact absurd (hk 2 (by omega)) (by decide)
  · intro hk j hj
    have hearly : ∀ j < 2, nanosAt j < (Span.ofMillis 15).nanos := by decide
    exact hearly j (by omega)

/-- The read of a look at the job is answered. -/
theorem find_watchedJob (hk : k ≤ 2) :
    ∃ found, (((stateAt (WatchedStore.look ⟨1⟩ .processed) watchedJob k).catchUp
      (k * interval)).store.find ⟨1⟩).1 = .ok found := by
  have hanswered : ∀ k ≤ 2, (((stateAt (WatchedStore.look ⟨1⟩ .processed) watchedJob k).catchUp
      (k * interval)).store.find ⟨1⟩).1.isOk = true := by decide +kernel
  have hok := hanswered k hk
  generalize (((stateAt (WatchedStore.look ⟨1⟩ .processed) watchedJob k).catchUp
    (k * interval)).store.find ⟨1⟩).1 = answer at hok ⊢
  cases answer with
  | ok found => exact ⟨found, rfl⟩
  | error e => cases hok

/-- With a limit of fifteen milliseconds the last look comes after twenty, when the job is done. -/
theorem watch_sees_everything_watchedJob :
    (∀ now w, (WatchedStore.look ⟨1⟩ .processed now w).1 =
      shown .processed ((w.catchUp now).store.find ⟨1⟩).1) ∧
    (∀ k, Reaches (.ofMillis 15) k →
      ∃ found, (((stateAt (WatchedStore.look ⟨1⟩ .processed) watchedJob k).catchUp
        (k * interval)).store.find ⟨1⟩).1 = .ok found) ∧
    (∃ n, IsWatched (.ofMillis 15) (WatchedStore.look ⟨1⟩ .processed) watchedJob .met n) ∧
    ∃ e, (((stateAt (WatchedStore.look ⟨1⟩ .processed) watchedJob 2).catchUp
      (2 * interval)).store.find ⟨1⟩).1 = .ok (some e) ∧ e.state = .processed := by
  have hlook := fst_look ⟨1⟩ .processed
  have hreads := fun k (hk : Reaches (.ofMillis 15) k) => find_watchedJob (reaches_fifteenMillis_iff.mp hk)
  obtain ⟨⟨result, n, hwatched⟩, hsight⟩ := (watch_sees_everything (.ofMillis 15)).2 ⟨1⟩ .processed
    (fun now w => (w.catchUp now).store) (WatchedStore.look ⟨1⟩ .processed) watchedJob hlook hreads
  have hlast : sightAt (WatchedStore.look ⟨1⟩ .processed) watchedJob 2 = .met := rfl
  obtain rfl := hwatched.met_iff.mpr ⟨2, reaches_fifteenMillis_iff.mpr (Nat.le_refl 2), hlast⟩
  exact ⟨hlook, hreads, ⟨n, hwatched⟩, (hsight 2).mp hlast⟩

/-- A look at a condition that holds from a look of a number on, with the number of looks that were made. -/
def lookFrom (number : Nat) (_ done : Nat) : Sight Empty Unit × Nat :=
  (if number ≠ 0 ∧ number ≤ done + 1 then .met else .notYet (), done + 1)

theorem stateAt_lookFrom (number k : Nat) : stateAt (lookFrom number) 0 k = k := by
  induction k with
  | zero => rfl
  | succ k ih => simp only [stateAt, ih, lookFrom]

theorem sightAt_lookFrom_eq_met_iff {number : Nat} :
    sightAt (lookFrom number) 0 k = .met ↔ number ≠ 0 ∧ number ≤ k + 1 := by
  simp only [sightAt, stateAt_lookFrom, lookFrom]
  split
  · rename_i hholds
    exact iff_of_true rfl hholds
  · rename_i hfails
    exact iff_of_false nofun hfails

/-- A watch for a condition that holds from a look of a number on sees it if that look can be made. -/
theorem untilLook_eq_met_iff {number : Nat} :
    (untilLook number limit).1 = .met ↔ number ≠ 0 ∧ Reaches limit (number - 1) := by
  have hreads : ∀ k e, Reaches limit k → sightAt (lookFrom number) 0 k ≠ .failed e := fun k e => e.elim
  obtain ⟨result, n, hwatched⟩ := exists_isWatched hreads
  have hresult : (untilLook number limit).1 = result := congrArg Prod.fst hwatched.ran
  rw [hresult, hwatched.met_iff]
  constructor
  · rintro ⟨k, hk, hmet⟩
    obtain ⟨hnumber, hle⟩ := sightAt_lookFrom_eq_met_iff.mp hmet
    exact ⟨hnumber, fun j hj => hk j (by omega)⟩
  · rintro ⟨hnumber, hreaches⟩
    exact ⟨number - 1, hreaches, sightAt_lookFrom_eq_met_iff.mpr ⟨hnumber, by omega⟩⟩

/-- A watch for a state in a store that others work on sees the state if the entry is in it at a look that can be
made. -/
theorem untilState_eq_met_iff {id : EntryId} {state : EntryState} {start : Timestamp}
    {incidents : List (Nat × Incident)}
    (hreads : ∀ k e, Reaches limit k →
      sightAt (WatchedStore.look id state) (.opening start incidents) k ≠ .failed e) :
    (untilState id state limit start incidents).1 = .met ↔
      ∃ k, Reaches limit k ∧ ∃ e,
        (((stateAt (WatchedStore.look id state) (.opening start incidents) k).catchUp (k * interval)).store.find id).1 =
          .ok (some e) ∧ e.state = state := by
  obtain ⟨result, n, hwatched⟩ := exists_isWatched hreads
  have hran := hwatched.ran
  rw [WatchedStore.opening] at hran
  have hresult : (untilState id state limit start incidents).1 = result := by
    rw [untilState, hran]
  rw [hresult, hwatched.met_iff]
  simp only [sightAt, fst_look, shown_eq_met_iff]

end Watch

end DurableQueue.Trial
