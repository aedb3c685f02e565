/-!
Running tasks in virtual time.

The tasks of a `TaskSystem` share a state. A task takes steps until it has to wait; when every task
waits, time jumps to the next moment for which one of them waits. A task that yields goes on only
after all others have come to wait. Every function takes a bound on the number of its rounds.
-/

namespace DurableQueue

/-- Tasks that share a state. -/
structure TaskSystem (σ τ : Type) where
  /-- The tasks, in the order in which they are tried. -/
  tasks : σ → List τ
  /-- The next step of a task; none while it waits. -/
  step? : τ → σ → Option σ
  /-- Whether a task lets all others go first. -/
  yields : τ → σ → Bool
  /-- The moments for which tasks wait. -/
  wakeTimes : σ → List Nat
  /-- The present moment. -/
  now : σ → Nat
  /-- The same state at another moment. -/
  setNow : Nat → σ → σ

namespace TaskSystem

variable {σ τ : Type}

/-- Whether a task can take a step. -/
def isReady (S : TaskSystem σ τ) (s : σ) (t : τ) : Bool := (S.step? t s).isSome

/-- Lets a task take steps until it waits or yields. -/
def runTask (S : TaskSystem σ τ) (t : τ) : Nat → σ → σ
  | 0, s => s
  | fuel + 1, s =>
    match S.step? t s with
    | none => s
    | some s => if S.yields t s then s else S.runTask t fuel s

/-- The task that goes next: one that does not yield, if there is one. -/
def next? (S : TaskSystem σ τ) (s : σ) : Option τ :=
  let tasks := S.tasks s
  match tasks.find? fun t => !S.yields t s && S.isReady s t with
  | some t => some t
  | none => tasks.find? (S.isReady s)

/-- Lets tasks take steps until a condition holds or all of them wait. -/
def settleUntil (S : TaskSystem σ τ) (bound : Nat) (isOver : σ → Bool) : Nat → σ → σ
  | 0, s => s
  | fuel + 1, s =>
    if isOver s then s
    else
      match S.next? s with
      | none => s
      | some t => S.settleUntil bound isOver fuel (S.runTask t bound s)

/-- Lets tasks take steps until all of them wait. -/
def settle (S : TaskSystem σ τ) (bound : Nat) : Nat → σ → σ :=
  S.settleUntil bound fun _ => false

/-- The next moment for which a task waits. -/
def nextTime? (S : TaskSystem σ τ) (s : σ) : Option Nat :=
  ((S.wakeTimes s).filter fun t => S.now s < t).min?

/-- Lets time pass until a moment. What is due at that moment has not happened yet. -/
def advanceTo (S : TaskSystem σ τ) (bound : Nat) (moment : Nat) : Nat → σ → σ
  | 0, s => s
  | fuel + 1, s =>
    if moment ≤ S.now s then s
    else
      let s := S.settle bound bound s
      let next := match S.nextTime? s with
        | some t => Nat.min t moment
        | none => moment
      S.advanceTo bound moment fuel (S.setNow next s)

/-- Lets tasks take steps and time pass until a condition holds. -/
def runUntil (S : TaskSystem σ τ) (bound : Nat) (isOver : σ → Bool) : Nat → σ → σ
  | 0, s => s
  | fuel + 1, s =>
    let s := S.settleUntil bound isOver bound s
    if isOver s then s
    else
      match S.nextTime? s with
      | some t => S.runUntil bound isOver fuel (S.setNow t s)
      | none => s

/-- A state that a step of some task leads to. -/
inductive Step (S : TaskSystem σ τ) : σ → σ → Prop where
  | task {s s' : σ} (t : τ) : S.step? t s = some s' → Step S s s'
  | time {s : σ} (t : Nat) : S.now s ≤ t → Step S s (S.setNow t s)

end TaskSystem

end DurableQueue
