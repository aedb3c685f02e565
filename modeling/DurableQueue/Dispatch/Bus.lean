import DurableQueue.Dispatch.Tasks
import DurableQueue.Schedule

/-!
Several dispatchers on one store.

A `Bus` holds a hub and the dispatchers around it. What is asked of a dispatcher from outside and
takes time, processing a batch or shutting down, is a `Call`, a task beside those of the
dispatchers. `Bus.system` puts all tasks into virtual time.
-/

namespace DurableQueue

/-- Where the processing of one batch is. -/
inductive ProcessStage where
  | claiming
  /-- Between two entries of `count` claimed ones. -/
  | between (count : Nat) (rest : List Entry)
  | attempting (count : Nat) (a : Attempt) (rest : List Entry)

/-- Where a shutdown is. -/
inductive ShutdownStage where
  /-- It waits for claim loop and reaper. -/
  | joining (deadline : Nat)
  /-- It waits for the workers. -/
  | finishing (deadline : Nat) (timedOut : Bool)
  /-- It hands back the claims, perhaps for the second time. -/
  | releasing (again timedOut : Bool)

/-- What a call answers. -/
inductive CallResult where
  | count (n : Nat)
  | done
  | error (e : DispatchError)
  | panicked
deriving DecidableEq

/-- A call of a dispatcher from outside. -/
inductive Call where
  | process (node : Nat) (stage : ProcessStage)
  | shutdown (node : Nat) (stage : ShutdownStage)
  | over (r : CallResult)

namespace ProcessStage

/-- The next step of processing a batch: the next stage or the answer. -/
def step? (draw : Draw) (h : Hub) (n : Node) :
    ProcessStage → Option ((ProcessStage ⊕ CallResult) × Hub × Node)
  | claiming =>
    match h.breakdowns.claim with
    | k + 1 => some (.inr .panicked, { h with breakdowns := { h.breakdowns with claim := k } }, n)
    | 0 =>
      match n.claims.claim h.store n.config.maxEntriesClaimed h.time with
      | (.ok entries, s) =>
        let n := n.count fun c => { c with claimed := c.claimed + entries.length }
        some (.inl (between entries.length entries), { h with store := s }, n)
      | (.error e, s) => some (.inr (.error e), { h with store := s }, n)
  | between count [] => some (.inr (.count count), h, n)
  | between count (e :: rest) =>
    let (a, n) := Attempt.begin_ n e
    some (.inl (attempting count a rest), h, n)
  | attempting count a rest =>
    (a.step? draw h n).map fun
      | (.going a, h, n) => (.inl (attempting count a rest), h, n)
      | (.finished, h, n) => (.inl (between count rest), h, n)
      | (.brokeDown, h, n) => (.inr .panicked, h, n)

def wakeTime? : ProcessStage → Option Nat
  | attempting _ a _ => a.wakeTime?
  | _ => none

end ProcessStage

namespace ShutdownStage

/-- Begins a shutdown: the tasks are told to stop and the grace period runs. -/
def begin_ (h : Hub) (n : Node) : ShutdownStage × Node :=
  (joining (h.after n.config.shutdownTimeout), n.cancel)

def result (n : Node) (timedOut : Bool) : CallResult :=
  if timedOut then .error (.shutdownTimeout n.config.shutdownTimeout) else .done

/-- The next step of a shutdown: the next stage or the answer. -/
def step? (h : Hub) (n : Node) : ShutdownStage → Option ((ShutdownStage ⊕ CallResult) × Hub × Node)
  | joining deadline =>
    if n.isBackgroundOver then some (.inl (finishing deadline false), h, n)
    else if deadline ≤ h.now then
      let (h, n) := n.abortBackground h
      some (.inl (finishing deadline true), h, n)
    else none
  | finishing deadline timedOut =>
    let rest (n : Node) := n.count fun s => { s with activeWorkers := 0 }
    if n.areWorkersOver then some (.inl (releasing false timedOut), h, rest n)
    else if deadline ≤ h.now then some (.inl (releasing false true), h, rest n.abortWorkers)
    else none
  | releasing again timedOut =>
    match h.store.release n.id h.time with
    | (.ok _, s) => some (.inr (result n timedOut), { h with store := s }, n)
    | (.error e, s) =>
      let h := { h with store := s }
      if e.isTransient && !again then some (.inl (releasing true timedOut), h, n)
      else some (.inr (.error (.ofStore e)), h, n)

def wakeTime? : ShutdownStage → Option Nat
  | joining deadline | finishing deadline _ => some deadline
  | releasing _ _ => none

end ShutdownStage

/-- A hub, the dispatchers around it and the calls in progress. -/
structure Bus where
  hub : Hub
  /-- Every dispatcher that was ever created. -/
  nodes : List Node
  /-- The dispatchers that can be asked for something, by name. -/
  roster : List (NodeId × Nat)
  calls : List Call

/-- A task of a bus. -/
inductive BusTask where
  | call (i : Nat)
  | worker (node i : Nat)
  | claimLoop (node : Nat)
  | reaper (node : Nat)
deriving DecidableEq, Repr

namespace Bus

def startingAt (start : Timestamp) : Bus := ⟨.startingAt start, [], [], []⟩

/-- Lets a function change the hub and one dispatcher. -/
def onNode? (b : Bus) (i : Nat) (f : Hub → Node → Option (Hub × Node)) : Option Bus := do
  let n ← b.nodes[i]?
  let (hub, n) ← f b.hub n
  return { b with hub, nodes := b.nodes.set i n }

/-- The next step of a call. -/
def stepCall? (draw : Draw) (b : Bus) (i : Nat) : Option Bus := do
  let finish (node : Nat) (c : Call) (h : Hub) (n : Node) : Bus :=
    { b with hub := h, nodes := b.nodes.set node n, calls := b.calls.set i c }
  match ← b.calls[i]? with
  | .process node stage =>
    let (next, h, n) ← stage.step? draw b.hub (← b.nodes[node]?)
    let c := match next with
      | .inl stage => .process node stage
      | .inr r => .over r
    return finish node c h n
  | .shutdown node stage =>
    let (next, h, n) ← stage.step? b.hub (← b.nodes[node]?)
    let c := match next with
      | .inl stage => .shutdown node stage
      | .inr r => .over r
    return finish node c h n
  | .over _ => none

/-- The next step of a task. -/
def step? (draw : Nat → Draw) (t : BusTask) (b : Bus) : Option Bus :=
  match t with
  | .call i =>
    match b.calls[i]? with
    | some (.process node _) => b.stepCall? (draw node) i
    | _ => b.stepCall? (draw 0) i
  | .worker node i => b.onNode? node fun h n => Worker.step? (draw node) h n i
  | .claimLoop node => b.onNode? node ClaimLoop.step?
  | .reaper node => b.onNode? node Reaper.step?

/-- The tasks: calls first, then those of each dispatcher. -/
def tasks (b : Bus) : List BusTask :=
  (List.range b.calls.length).map .call ++
    (List.range b.nodes.length).flatMap fun i =>
      match b.nodes[i]? with
      | some n =>
        (List.range n.workers.length).map (.worker i) ++ [.claimLoop i, .reaper i]
      | none => []

def yields (t : BusTask) (b : Bus) : Bool :=
  match t with
  | .claimLoop i =>
    match b.nodes[i]? with
    | some n => n.claimLoop == some .yielding
    | none => false
  | _ => false

def wakeTimes (b : Bus) : List Nat :=
  (b.calls.filterMap fun
    | .process _ stage => stage.wakeTime?
    | .shutdown _ stage => stage.wakeTime?
    | .over _ => none) ++
  b.nodes.flatMap fun n =>
    n.workers.filterMap Worker.wakeTime? ++
      (n.claimLoop.bind ClaimLoop.wakeTime?).toList ++ (n.reaper.bind Reaper.wakeTime?).toList

/-- The tasks of a bus in virtual time, with the jitter that each dispatcher draws. -/
def system (draw : Nat → Draw) : TaskSystem Bus BusTask where
  tasks := tasks
  step? := step? draw
  yields := yields
  wakeTimes := wakeTimes
  now b := b.hub.now
  setNow t b := { b with hub := { b.hub with now := t } }

/-- The number of the dispatcher of a name. -/
def find? (b : Bus) (id : NodeId) : Option Nat := b.roster.lookup id

def node? (b : Bus) (id : NodeId) : Option Node := do b.nodes[← b.find? id]?

/-- Lets go of the dispatcher of a name: its tasks stop as soon as they have finished their entry. -/
def drop (b : Bus) (id : NodeId) : Bus :=
  match b.find? id with
  | some i =>
    { b with nodes := b.nodes.modify i Node.cancel
             roster := b.roster.filter fun r => r.1 != id }
  | none => b

/-- Adds a dispatcher; an earlier one of the same name is let go. -/
def add (b : Bus) (n : Node) : Bus :=
  let b := b.drop n.id
  { b with nodes := b.nodes ++ [n], roster := (n.id, b.nodes.length) :: b.roster }

def beginProcess (b : Bus) (i : Nat) : Bus := { b with calls := b.calls ++ [.process i .claiming] }

/-- Begins a shutdown; the dispatcher can no longer be asked for anything. -/
def beginShutdown (b : Bus) (i : Nat) : Bus :=
  match b.nodes[i]? with
  | some n =>
    let (stage, n) := ShutdownStage.begin_ b.hub n
    { b with nodes := b.nodes.set i n, calls := b.calls ++ [.shutdown i stage]
             roster := b.roster.filter fun r => r.2 != i }
  | none => b

/-- Lets a dispatcher take back orphaned claims once. -/
def reapOnce (b : Bus) (i : Nat) : CallResult × Bus :=
  match b.nodes[i]?, b.hub.breakdowns.reap with
  | none, _ => (.done, b)
  | some _, k + 1 =>
    (.panicked, { b with hub := { b.hub with breakdowns := { b.hub.breakdowns with reap := k } } })
  | some n, 0 =>
    match n.claims.reap b.hub.store b.hub.time with
    | (.ok entries, s) =>
      let n := n.count fun c => { c with reaped := c.reaped + entries.length }
      (.count entries.length, { b with hub := { b.hub with store := s }, nodes := b.nodes.set i n })
    | (.error e, s) => (.error e, { b with hub := { b.hub with store := s } })

def areCallsOver (b : Bus) : Bool :=
  b.calls.all fun
    | .over _ => true
    | _ => false

def results (b : Bus) : List CallResult :=
  b.calls.filterMap fun
    | .over r => some r
    | _ => none

end Bus

end DurableQueue
