import DurableQueue.Entry.Basic

/-!
Announcing finished transactions.

A `Notifier` calls its callbacks and feeds its subscriptions. Callbacks hear of transactions of one
outcome, subscriptions of commits only, each through a queue of its own. One announcement is a
`Firing`, which goes in steps: it notes the callbacks, calls each and lets it react, notes the
subscribers and sends to each. What a callback registers while it runs is therefore not called by the
same firing, while a subscription that it opens does get the commit. `Notifier.fire` takes all these
steps at once.
-/

namespace DurableQueue

/-- How a transaction ended. -/
inductive TransactionOutcome where
  | commit
  | rollback
deriving DecidableEq, Repr

/-- A finished transaction. -/
structure TransactionEvent where
  outcome : TransactionOutcome
  /-- The entries that were written. -/
  entryIds : List EntryId
  /-- The node that ran the transaction. -/
  owner : NodeId
deriving DecidableEq, Repr

/-- The commit of an append. -/
def TransactionEvent.appended (e : Entry) : TransactionEvent := ⟨.commit, [e.id], e.creatingOwner⟩

mutual

/-- A function that hears of finished transactions, and what it does to the notifier each time it
is called. -/
inductive Callback where
  | mk (name : String) (reactions : List Reaction)

/-- What a callback does to the notifier. -/
inductive Reaction where
  | onCommit (c : Callback)
  | onRollback (c : Callback)
  | subscribe

end

def Callback.name : Callback → String
  | .mk name _ => name

/-- What a callback does to the notifier each time it is called. -/
def Callback.reactions : Callback → List Reaction
  | .mk _ reactions => reactions

/-- A callback that leaves the notifier alone. -/
def Callback.plain (name : String) : Callback := .mk name []

/-- The number of a subscription. -/
abbrev SubscriptionId := Nat

/-- A queue of commits. -/
structure Subscription where
  queue : List TransactionEvent
  isOpen : Bool
deriving DecidableEq

/-- Callbacks, subscribers and the queues of all subscriptions that were ever opened. -/
structure Notifier where
  commitCallbacks : List Callback
  rollbackCallbacks : List Callback
  /-- The subscriptions that are sent commits. -/
  subscribers : List SubscriptionId
  /-- Every subscription at the place of its number. -/
  subscriptions : List Subscription

namespace Notifier

def empty : Notifier := ⟨[], [], [], []⟩

instance : Inhabited Notifier := ⟨empty⟩

/-- The callbacks of an outcome, in the order of their registration. -/
def callbacks (n : Notifier) : TransactionOutcome → List Callback
  | .commit => n.commitCallbacks
  | .rollback => n.rollbackCallbacks

def onCommit (n : Notifier) (c : Callback) : Notifier :=
  { n with commitCallbacks := n.commitCallbacks ++ [c] }

def onRollback (n : Notifier) (c : Callback) : Notifier :=
  { n with rollbackCallbacks := n.rollbackCallbacks ++ [c] }

/-- Whether a subscription was not closed. -/
def isOpen (n : Notifier) (id : SubscriptionId) : Bool :=
  match n.subscriptions[id]? with
  | some s => s.isOpen
  | none => false

/-- Opens a subscription. Closed subscriptions are forgotten as subscribers. -/
def subscribe (n : Notifier) : SubscriptionId × Notifier :=
  let id := n.subscriptions.length
  (id, { n with subscribers := n.subscribers.filter n.isOpen ++ [id]
                subscriptions := n.subscriptions ++ [⟨[], true⟩] })

/-- Changes one subscription. -/
def changeSubscription (n : Notifier) (id : SubscriptionId) (f : Subscription → Subscription) :
    Notifier :=
  { n with subscriptions := n.subscriptions.modify id f }

/-- Closes a subscription; what is queued is lost. -/
def unsubscribe (n : Notifier) (id : SubscriptionId) : Notifier :=
  n.changeSubscription id fun _ => ⟨[], false⟩

def queued (n : Notifier) (id : SubscriptionId) : List TransactionEvent :=
  match n.subscriptions[id]? with
  | some s => s.queue
  | none => []

/-- Takes the oldest commit of a subscription. -/
def receive (n : Notifier) (id : SubscriptionId) : Option TransactionEvent × Notifier :=
  ((n.queued id).head?, n.changeSubscription id fun s => { s with queue := s.queue.tail })

/-- Takes all commits of a subscription. -/
def drain (n : Notifier) (id : SubscriptionId) : List TransactionEvent × Notifier :=
  (n.queued id, n.changeSubscription id fun s => { s with queue := [] })

/-- Queues a commit for a subscriber, unless it is closed. -/
def send (n : Notifier) (id : SubscriptionId) (e : TransactionEvent) : Notifier :=
  n.changeSubscription id fun s => if s.isOpen then { s with queue := s.queue ++ [e] } else s

/-- What a callback does to the notifier. -/
def react (n : Notifier) : Reaction → Notifier
  | .onCommit c => n.onCommit c
  | .onRollback c => n.onRollback c
  | .subscribe => n.subscribe.2

def call (n : Notifier) (c : Callback) : Notifier := c.reactions.foldl react n

end Notifier

/-- An announcement in progress. -/
inductive Firing where
  /-- The callback that was called last has these reactions before it, and these callbacks are still to
  be called. -/
  | calling (e : TransactionEvent) (reactions : List Reaction) (rest : List Callback)
  /-- These subscribers are still to be sent the commit. -/
  | sending (e : TransactionEvent) (rest : List SubscriptionId)
  | finished (e : TransactionEvent)

namespace Firing

/-- Begins an announcement: the callbacks registered by now are noted. -/
def start (n : Notifier) (e : TransactionEvent) : Firing := .calling e [] (n.callbacks e.outcome)

/-- The next step of an announcement; none once it is over. -/
def step? (n : Notifier) : Firing → Option (Firing × Notifier)
  | .calling e (r :: reactions) rest => some (.calling e reactions rest, n.react r)
  | .calling e [] (c :: rest) => some (.calling e c.reactions rest, n)
  | .calling e [] [] =>
    match e.outcome with
    | .commit => some (.sending e n.subscribers, n)
    | .rollback => some (.finished e, n)
  | .sending e (id :: rest) => some (.sending e rest, n.send id e)
  | .sending e [] => some (.finished e, n)
  | .finished _ => none

end Firing

namespace Notifier

/-- Makes an announcement without a break. Answers the names of the callbacks that were called. -/
def fire (n : Notifier) (e : TransactionEvent) : List String × Notifier :=
  let callbacks := n.callbacks e.outcome
  let n := callbacks.foldl call n
  let n := match e.outcome with
    | .commit => n.subscribers.foldl (fun n id => n.send id e) n
    | .rollback => n
  (callbacks.map Callback.name, n)

/-- Whether a callback keeps the notifier in being. -/
def holdsItself (n : Notifier) : Bool :=
  (n.commitCallbacks ++ n.rollbackCallbacks).any fun c => !c.reactions.isEmpty

def describe (n : Notifier) : String :=
  "CommitNotifier \x7b commit_callbacks: " ++ toString n.commitCallbacks.length ++
    ", rollback_callbacks: " ++ toString n.rollbackCallbacks.length ++
    ", subscribers: " ++ toString n.subscribers.length ++ " \x7d"

end Notifier

end DurableQueue
