import DurableQueue.Proofs.Dispatch.Run
import DurableQueue.Proofs.Dispatch.Within
import DurableQueue.Proofs.Store.Undisturbed

/-!
Normal operation of dispatchers, and the attempts that it makes.

In normal operation dispatchers of one limit claim, dispatch and resolve, and nobody else resolves claims
(`BusAction.IsNormal`); claims are neither taken back nor handed back (`Bus.takesNothingBack`).
`BusTask.attempt?` is the attempt that a task makes, from when it takes a claim until it has stored the record
that resolves it. `Bus.log` tells of a run when attempts began and what their updates answered. An attempt can
also be cut off before that (`BusTask.CutsOff`), by a shutdown whose time has passed or by a delay beyond
every span. Neither is a step that resolves a claim, so what was begun and cut off stays open in the log.
-/

namespace DurableQueue

def Effect.IsNormal : Effect → Prop
  | .operate op => op.IsNormal
  | _ => True

/-- What happens in normal operation of dispatchers with one limit of failed attempts. -/
def BusAction.IsNormal (limit : UInt32) : BusAction → Prop
  | .add _ config registry _ _ =>
    config.retryPolicy.maxFailureRetries = limit ∧ registry.Does Effect.IsNormal
  | .operate op => op.IsNormal
  | .handle _ _ | .resolve _ _ _ | .reapOnce _ | .breakDown _ => False
  | _ => True

/-- Whether the next step of a task takes claims back or hands them back. -/
def BusTask.takesBack (b : Bus) : BusTask → Bool
  | .reaper node =>
    match b.nodes[node]? with
    | some n => n.reaper == some .reaping
    | none => false
  | .call i =>
    match b.calls[i]? with
    | some (.shutdown _ (.releasing _ _)) => true
    | _ => false
  | _ => false

/-- The attempt, unless its record is stored. -/
def Attempt.open? : Attempt → Option Attempt
  | .booking _ _ => none
  | a => some a

def Worker.attempt? : Worker → Option Attempt
  | .busy a => a.open?
  | _ => none

def ProcessStage.attempt? : ProcessStage → Option Attempt
  | .attempting _ a _ => a.open?
  | _ => none

def Call.attempt? : Call → Option Attempt
  | .process _ stage => stage.attempt?
  | _ => none

/-- The attempt of a worker of a dispatcher. -/
def Node.attempt? (n : Node) (i : Nat) : Option Attempt := n.workers[i]?.bind Worker.attempt?

/-- The attempt that a task makes. -/
def BusTask.attempt? (b : Bus) : BusTask → Option Attempt
  | .worker node i => b.nodes[node]?.bind fun n => n.attempt? i
  | .call i => b.calls[i]?.bind Call.attempt?
  | _ => none

/-- Whether the next step of a task makes workers stop: the time of a shutdown has passed and they are
still at work. -/
def BusTask.aborts (b : Bus) : BusTask → Bool
  | .call i =>
    match b.calls[i]? with
    | some (.shutdown node (.finishing deadline _)) =>
      b.nodes[node]?.any (fun n => !n.areWorkersOver) && decide (deadline ≤ b.hub.now)
    | _ => false
  | _ => false

/-- Whether a step of a task cuts attempts off. It makes workers stop, or the task breaks down because
the record of its attempt cannot be built. -/
def BusTask.CutsOff (t : BusTask) (b b' : Bus) : Prop :=
  t.aborts b = true ∨
    (∃ e outcome, t.attempt? b = some (.judged e outcome)) ∧ t.attempt? b' = none

/-- What is told of attempts. -/
inductive AttemptEvent where
  | begun (t : BusTask) (claim : Entry)
  /-- The update of the attempt was answered. -/
  | stored (t : BusTask) (claim next : Entry) (answer : Except StoreError Unit)

namespace AttemptEvent

def claim : AttemptEvent → Entry
  | begun _ e | stored _ e _ _ => e

/-- Whether an entry is concerned. -/
def isOn (id : EntryId) (event : AttemptEvent) : Bool := event.claim.id == id

def isBegun : AttemptEvent → Bool
  | begun _ _ => true
  | stored _ _ _ _ => false

def isStored : AttemptEvent → Bool
  | begun _ _ => false
  | stored _ _ _ _ => true

/-- Whether the attempt ended well. -/
def isSuccess : AttemptEvent → Bool
  | begun _ _ => false
  | stored _ _ next _ => next.state == .processed

/-- What a step of a task tells, from its attempts before and after it. -/
def ofStep (h : Hub) (t : BusTask) (before after : Option Attempt) : List AttemptEvent :=
  match before, after with
  | none, some a => [.begun t a.entry]
  | some (.storing e next _), none =>
    if h.breakdowns.update = 0 then [.stored t e next (h.store.update e next h.time).1] else []
  | _, _ => []

theorem ofStep_self (h : Hub) (t : BusTask) (o : Option Attempt) : ofStep h t o o = [] := by
  cases o <;> simp [ofStep]

end AttemptEvent

namespace Bus

/-- A bus after all of this happened. -/
def run (b : Bus) (actions : List BusAction) : Bus := actions.foldl act b

/-- What an action tells of attempts. Only a step of a task begins or ends one. -/
def events (b : Bus) : BusAction → List AttemptEvent
  | .task t draw => AttemptEvent.ofStep b.hub t (t.attempt? b) (t.attempt? (b.act (.task t draw)))
  | _ => []

/-- What a run tells of attempts. -/
def log (b : Bus) : List BusAction → List AttemptEvent
  | [] => []
  | x :: rest => b.events x ++ (b.act x).log rest

/-- What a run tells of attempts on one entry. -/
def logOf (b : Bus) (actions : List BusAction) (id : EntryId) : List AttemptEvent :=
  (b.log actions).filter (·.isOn id)

/-- Whether an action takes claims back or hands them back. -/
def takesBack (b : Bus) : BusAction → Bool
  | .task t _ => t.takesBack b
  | _ => false

/-- Whether a run takes no claims back and hands none back. -/
def takesNothingBack (b : Bus) : List BusAction → Bool
  | [] => true
  | x :: rest => !b.takesBack x && (b.act x).takesNothingBack rest

/-- Whether an action makes workers stop. -/
def aborts (b : Bus) : BusAction → Bool
  | .task t _ => t.aborts b
  | _ => false

/-- Whether no worker is made to stop in a run. -/
def abortsNothing (b : Bus) : List BusAction → Bool
  | [] => true
  | x :: rest => !b.aborts x && (b.act x).abortsNothing rest

/-- Whether an action cuts attempts off. Only a step of a task can. -/
def CutsOff (b : Bus) : BusAction → Prop
  | .task t draw => t.CutsOff b (b.act (.task t draw))
  | _ => False

/-- A run in which no attempt is cut off. -/
def CutsNothingOff : Bus → List BusAction → Prop
  | _, [] => True
  | b, x :: rest => ¬ b.CutsOff x ∧ CutsNothingOff (b.act x) rest

end Bus

end DurableQueue
