import DurableQueue.Store.Basic

/-!
Waiting for a condition.

A `Watch` looks at a state every ten milliseconds until it sees what it waits for or fails. The time
limit counts only after a look, so the last look is the first one at or after the limit.
-/

namespace DurableQueue.Trial

/-- What a look shows. -/
inductive Sight (ε α : Type) where
  /-- What was waited for. -/
  | met
  /-- Not yet; `seen` is there instead. -/
  | notYet (seen : α)
  | failed (e : ε)

/-- How a watch ends. -/
inductive WatchResult (ε α : Type) where
  | met
  | expired (seen : α)
  | failed (e : ε)

namespace Watch

/-- Milliseconds between two looks. -/
def interval : Nat := 10

/-- Looks at a state at a millisecond and every interval from then on. Answers the end of the watch,
the number of looks, the millisecond of the last one and the state after it. -/
def run {σ ε α : Type} (limit : Span) (look : Nat → σ → Sight ε α × σ) (now looks : Nat) (s : σ) :
    WatchResult ε α × Nat × Nat × σ :=
  match look now s with
  | (.met, s) => (.met, looks + 1, now, s)
  | (.failed e, s) => (.failed e, looks + 1, now, s)
  | (.notYet seen, s) =>
    if limit.nanos ≤ now * 1000000 then (.expired seen, looks + 1, now, s)
    else run limit look (now + interval) (looks + 1) s
termination_by limit.nanos - now * 1000000
decreasing_by simp only [interval]; omega

/-- Waits for a condition that holds from a look of this number on; nought stands for never. -/
def untilLook (number : Nat) (limit : Span) : WatchResult Empty Unit × Nat × Nat :=
  let look (_ : Nat) (done : Nat) : Sight Empty Unit × Nat :=
    (if number ≠ 0 ∧ number ≤ done + 1 then .met else .notYet (), done + 1)
  let (result, looks, now, _) := run limit look 0 0 0
  (result, looks, now)

/-- The wording of a condition that did not come to hold. -/
def conditionNotMet (limit : Span) : String := "condition not met within " ++ limit.render

/-- What happens to a store while someone watches it. -/
inductive Incident where
  | append (new : NewEntry)
  /-- A claim of up to ten entries. -/
  | claim (claimer : NodeId)
  /-- Every entry of the last claim moves to a state. -/
  | finish (state : EntryState)
  | failNext (count : Nat)

/-- A store that changes while it is watched. -/
structure WatchedStore where
  start : Timestamp
  store : Store
  /-- The last claim. -/
  claimed : List Entry
  /-- What is still to happen, and when. -/
  agenda : List (Nat × Incident)

namespace WatchedStore

/-- The time of a millisecond. -/
def time (s : WatchedStore) (now : Nat) : Timestamp :=
  match s.start.shift? (now * 1000000 : Nat) with
  | some t => t
  | none => .latest

/-- Lets an incident happen; what the store answers matters only to a claim. -/
def happen (s : WatchedStore) (now : Nat) : Incident → WatchedStore
  | .append new => { s with store := (s.store.append new (s.time now)).2 }
  | .claim claimer =>
    match s.store.claim 10 claimer none (s.time now) with
    | (.ok claimed, store) => { s with store, claimed }
    | (.error _, store) => { s with store }
  | .finish state =>
    let store := s.claimed.foldl
      (fun store e => (store.update e { e with state } (s.time now)).2) s.store
    { s with store }
  | .failNext count => { s with store := s.store.failNext count }

/-- Lets everything happen that is due by a millisecond. -/
def catchUp (s : WatchedStore) (now : Nat) : WatchedStore :=
  let due := s.agenda.takeWhile fun i => i.1 ≤ now
  let rest := s.agenda.drop due.length
  due.foldl (fun s i => s.happen i.1 i.2) { s with agenda := rest }

/-- Looks whether an entry is in a state. -/
def look (id : EntryId) (state : EntryState) (now : Nat) (s : WatchedStore) :
    Sight StoreError (Option EntryState) × WatchedStore :=
  let s := s.catchUp now
  match s.store.find id with
  | (.error e, store) => (.failed e, { s with store })
  | (.ok found, store) =>
    let seen := found.map Entry.state
    (if seen = some state then .met else .notYet seen, { s with store })

end WatchedStore

/-- Puts incidents at their times; one that comes late in the list happens no earlier than those
before it. -/
def agendaOf (incidents : List (Nat × Incident)) : List (Nat × Incident) :=
  let step (acc : Nat × List (Nat × Incident)) (i : Nat × Incident) : Nat × List (Nat × Incident) :=
    let t := Nat.max acc.1 i.1
    (t, acc.2 ++ [(t, i.2)])
  (incidents.foldl step (0, [])).2

/-- Waits until an entry of a store that changes is in a state. -/
def untilState (id : EntryId) (state : EntryState) (limit : Span) (start : Timestamp)
    (incidents : List (Nat × Incident)) : WatchResult StoreError (Option EntryState) × Nat :=
  let watched : WatchedStore := ⟨start, .empty, [], agendaOf incidents⟩
  let (result, _, now, _) := run limit (WatchedStore.look id state) 0 0 watched
  (result, now)

/-- The wording of a state that was not reached. -/
def stateNotReached (id : EntryId) (state : EntryState) (limit : Span) (seen : Option EntryState) :
    String :=
  let there := match seen with
    | some s => "Some(" ++ s.label ++ ")"
    | none => "None"
  "entry " ++ id.text ++ " is " ++ there ++ ", expected " ++ state.name ++ " within " ++ limit.render

end Watch

end DurableQueue.Trial
