import DurableQueue.Dispatch.Bus

/-!
Everything that can happen to dispatchers and their store, in any order.

A `BusAction` is one atomic step of a task of a bus, or something that its users, other clients of
the store or the clocks do. `Bus.act` carries it out, and changes nothing where it cannot happen. A
`Scene` is a bus with every claim that its store ever handed out, so that a claim may be processed
long after it was lost; `Scene.run` carries out any list of actions.
-/

namespace DurableQueue

/-- Something that happens to a bus. -/
inductive BusAction where
  /-- A task takes its next step, with the jitter that the dispatchers draw. -/
  | task (t : BusTask) (draw : Nat → Draw)
  /-- A dispatcher is added, whether or not its configuration passes the check. -/
  | add (id : NodeId) (config : DispatchConfig) (registry : Registry) (clock : NodeClock)
    (isAttached : Bool)
  | start (node : Nat)
  | post (node : Nat) (type : EventType) (event : Datum) (keys : SearchKeys)
  /-- A dispatcher is asked to claim and process a batch. -/
  | process (node : Nat)
  /-- A dispatcher is given a claim to process, whoever made the claim. -/
  | handle (node : Nat) (e : Entry)
  /-- A dispatcher is told how an attempt ended that it did not make. -/
  | resolve (node : Nat) (e : Entry) (outcome : DispatchOutcome)
  | reapOnce (node : Nat)
  | shutdown (node : Nat)
  | drop (id : NodeId)
  /-- Another client operates on the store. -/
  | operate (op : StoreOp)
  /-- The next operations of dispatchers are made to break down. -/
  | breakDown (b : Breakdowns)
  /-- The clock of the store is set, forward or back. -/
  | setTime (start : Timestamp) (now : Nat)
  /-- The clock of a dispatcher is set. -/
  | setClock (node : Nat) (clock : NodeClock)

/-- A dispatcher that has done nothing yet. -/
def Node.unstarted (id : NodeId) (config : DispatchConfig) (registry : Registry)
    (clock : NodeClock) (isAttached : Bool) : Node :=
  { id, config, registry, clock, isAttached, isStarted := false, isCancelled := false,
    stats := .zero, queue := [], workers := [], claimLoop := none, reaper := none,
    subscription := none }

namespace Bus

/-- Gives a dispatcher something to process. -/
def give (b : Bus) (i : Nat) (stage : ProcessStage) : Bus :=
  { b with calls := b.calls ++ [.process i stage] }

/-- A bus after something happened. -/
def act (b : Bus) : BusAction → Bus
  | .task t draw => (b.step? draw t).getD b
  | .add id config registry clock isAttached =>
    b.add (.unstarted id config registry clock isAttached)
  | .start i => (b.onNode? i fun h n => some (n.start h).2).getD b
  | .post i type event keys =>
    (b.onNode? i fun h n => some ((n.post h type event keys).2, n)).getD b
  | .process i => b.beginProcess i
  | .handle i e => b.give i (.between 0 [e])
  | .resolve i e outcome => b.give i (.attempting 0 (.judged e outcome) [])
  | .reapOnce i => (b.reapOnce i).2
  | .shutdown i => b.beginShutdown i
  | .drop id => b.drop id
  | .operate op => { b with hub := (b.hub.operate op).2 }
  | .breakDown breakdowns => { b with hub := { b.hub with breakdowns } }
  | .setTime start now => { b with hub := { b.hub with start, now } }
  | .setClock i clock => { b with nodes := b.nodes.modify i fun n => { n with clock } }

end Bus

/-- The claim that an action hands to a dispatcher. -/
def BusAction.claim? : BusAction → Option Entry
  | .handle _ e | .resolve _ e _ => some e
  | _ => none

/-- A bus and every claim that its store held after some action. -/
structure Scene where
  bus : Bus
  claims : List Entry

namespace Scene

def startingAt (start : Timestamp) : Scene := ⟨.startingAt start, []⟩

/-- The claims that a store holds. -/
def claimsIn (s : Store) : List Entry := s.live.filter fun e => e.state == .inProcessing

/-- A scene after something happened. A dispatcher is only handed claims that once were made. -/
def act (s : Scene) (a : BusAction) : Scene :=
  if ∀ e ∈ a.claim?, e ∈ s.claims then
    let bus := s.bus.act a
    ⟨bus, s.claims ++ claimsIn bus.hub.store⟩
  else s

/-- A scene after all of this happened. -/
def run (s : Scene) (actions : List BusAction) : Scene := actions.foldl act s

end Scene

end DurableQueue
