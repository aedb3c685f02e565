import DurableQueue.Dispatch.Handler
import DurableQueue.Notifier.Basic

/-!
What the nodes of a bus share: time, the store, its notifier and the journal of the handlers.
-/

namespace DurableQueue

/-- How many of the next operations of dispatchers break down before they do anything. -/
structure Breakdowns where
  claim : Nat
  update : Nat
  reap : Nat
deriving DecidableEq, Repr

/-- What the nodes of a bus share. -/
structure Hub where
  /-- The time at which the bus began. -/
  start : Timestamp
  /-- Milliseconds since then. -/
  now : Nat
  store : Store
  notifier : Notifier
  /-- What handlers wrote, with the millisecond. -/
  journal : List (Nat × Note)
  breakdowns : Breakdowns

namespace Hub

def startingAt (start : Timestamp) : Hub := ⟨start, 0, .empty, .empty, [], ⟨0, 0, 0⟩⟩

instance : Inhabited Hub := ⟨startingAt .epoch⟩

/-- The time that it is; beyond the calendar the latest time. -/
def time (h : Hub) : Timestamp :=
  match h.start.shift? (h.now * 1000000 : Nat) with
  | some t => t
  | none => .latest

/-- The millisecond at which a span from now has passed. -/
def after (h : Hub) (s : Span) : Nat := h.now + s.millisUp

/-- Appends an entry and announces it. -/
def append (h : Hub) (new : NewEntry) : Except StoreError Entry × Hub :=
  match h.store.append new h.time with
  | (.ok e, store) => (.ok e, { h with store, notifier := (h.notifier.fire (.appended e)).2 })
  | (.error error, store) => (.error error, { h with store })

def operate (h : Hub) (op : StoreOp) : Except StoreError StoreAnswer × Hub :=
  match op with
  | .append new =>
    match h.append new with
    | (.ok e, h) => (.ok (.entry e), h)
    | (.error error, h) => (.error error, h)
  | op =>
    let (answer, store) := h.store.apply op h.time
    (answer, { h with store })

def write (h : Hub) (n : Note) : Hub := { h with journal := h.journal ++ [(h.now, n)] }

end Hub

end DurableQueue
