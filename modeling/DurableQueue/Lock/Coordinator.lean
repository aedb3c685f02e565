import DurableQueue.Lock.Error
import DurableQueue.Text.Padded
import DurableQueue.Text.Split

/-!
A coordination service.

A `Coordinator` keeps a tree of nodes, each owned by a session, as a table of paths in ascending
order. A client creates nodes with ascending numbers under a parent, lists children, deletes nodes
and watches them for deletion. A session that is disconnected can do none of this; one that expires
loses its nodes and goes on under a new identity. Every operation is one atomic step that answers a
value or an error and the service after it.
-/

namespace DurableQueue

/-- A change of a session. -/
inductive SessionEvent where
  /-- The connection was lost; the nodes stay. -/
  | disconnected
  /-- The connection is back. -/
  | reconnected
  /-- The session expired; its nodes are gone. -/
  | expired
deriving DecidableEq, Repr

namespace SessionEvent

def name : SessionEvent → String
  | disconnected => "Disconnected"
  | reconnected => "Reconnected"
  | expired => "Expired"

end SessionEvent

/-- What a subscriber to the events of a session receives. -/
inductive Reception where
  | event (e : SessionEvent)
  /-- This many events were lost because the subscriber was slow. -/
  | missed (count : Nat)
deriving DecidableEq, Repr

/-- One session of a client. -/
structure Session where
  /-- Under which its nodes are known. -/
  identity : Nat
  isConnected : Bool
  /-- Every event since it was opened. -/
  events : List SessionEvent

namespace Session

/-- How many events are kept for a slow subscriber. -/
def keptEvents : Nat := 16

/-- The next event for a subscriber that has seen this many, and how many it has seen then. -/
def receive? (s : Session) (seen : Nat) : Option (Reception × Nat) :=
  let oldest := s.events.length - keptEvents
  if seen < oldest then some (.missed (oldest - seen), oldest)
  else (s.events[seen]?).map fun e => (.event e, seen + 1)

/-- Everything for a subscriber that has seen this many events. -/
def receiveAll (s : Session) (seen : Nat) : List Reception :=
  let oldest := s.events.length - keptEvents
  (if seen < oldest then [.missed (oldest - seen)] else []) ++
    (s.events.drop (Nat.max seen oldest)).map .event

def record (s : Session) (e : SessionEvent) : Session := { s with events := s.events ++ [e] }

end Session

/-- A node of the tree. -/
structure LockNode where
  path : String
  /-- The identity of the session that created it. -/
  owner : Nat
deriving DecidableEq, Repr

/-- A watch for the deletion of a node. -/
structure NodeWatch where
  path : String
  isFired : Bool
deriving DecidableEq, Repr

/-- A service that sessions share. -/
structure Coordinator where
  /-- The nodes, ascending by path. -/
  nodes : List LockNode
  /-- The number of the next node under each parent that ever had one. -/
  sequences : List (String × Nat)
  /-- Every watch ever set. -/
  watches : List NodeWatch
  /-- Every session ever opened. -/
  sessions : List Session
  /-- The identity that was given out last. -/
  lastIdentity : Nat

namespace Coordinator

def empty : Coordinator := ⟨[], [], [], [], 0⟩

instance : Inhabited Coordinator := ⟨empty⟩

/-- An answer or an error, and the service afterwards. -/
abbrev Outcome (α : Type) := Except LockError α × Coordinator

/-- What precedes the last slash of a path; nothing if there is none. -/
def parentOf (path : String) : String :=
  match Text.splitLast '/' path.toList with
  | some (parent, _) => String.ofList parent
  | none => ""

/-- The name of a direct child of a parent. -/
def childName? (parent path : String) : Option String :=
  let start := parent.toList ++ ['/']
  if start.isPrefixOf path.toList then
    let name := path.toList.drop start.length
    if name.contains '/' then none else some (String.ofList name)
  else none

/-- Puts a node at its place; an earlier one of the same path is replaced. -/
def insert (new : LockNode) : List LockNode → List LockNode
  | [] => [new]
  | n :: rest =>
    if n.path = new.path then new :: rest
    else if new.path < n.path then new :: n :: rest
    else n :: insert new rest

def hasNode (c : Coordinator) (path : String) : Bool := c.nodes.any fun n => n.path == path

def nextNumber (c : Coordinator) (parent : String) : Nat := (c.sequences.lookup parent).getD 0

/-- Opens a session and answers its number. -/
def openSession (c : Coordinator) : Nat × Coordinator :=
  let identity := c.lastIdentity + 1
  (c.sessions.length,
    { c with sessions := c.sessions ++ [⟨identity, true, []⟩], lastIdentity := identity })

/-- The identity of a session that is connected. -/
def identity (c : Coordinator) (session : Nat) : Except LockError Nat :=
  match c.sessions[session]? with
  | some s => if s.isConnected then .ok s.identity else .error .connectionLoss
  | none => .error .connectionLoss

/-- Runs an operation of a session that is connected. -/
def connected {α : Type} (c : Coordinator) (session : Nat) (op : Nat → Outcome α) : Outcome α :=
  match c.identity session with
  | .ok identity => op identity
  | .error e => (.error e, c)

/-- Creates a node whose path is a given start and the next number under its parent, in ten digits
or more. Answers the path. -/
def create (c : Coordinator) (session : Nat) (start : String) : Outcome String :=
  c.connected session fun identity =>
    let parent := parentOf start
    let number := c.nextNumber parent
    let path := start ++ Text.padded number 10
    (.ok path,
      { c with nodes := insert ⟨path, identity⟩ c.nodes
               sequences := (parent, number + 1) :: c.sequences.filter fun s => s.1 != parent })

/-- The names of the direct children of a parent, ascending. -/
def childNames (c : Coordinator) (parent : String) : List String :=
  c.nodes.filterMap fun n => childName? parent n.path

def children (c : Coordinator) (session : Nat) (parent : String) : Outcome (List String) :=
  c.connected session fun _ => (.ok (c.childNames parent), c)

/-- Sets a watch for the deletion of a node and answers its number; none if there is no such
node. -/
def watch (c : Coordinator) (session : Nat) (path : String) : Outcome (Option Nat) :=
  c.connected session fun _ =>
    if c.hasNode path then
      (.ok (some c.watches.length), { c with watches := c.watches ++ [⟨path, false⟩] })
    else (.ok none, c)

/-- Removes the nodes that a condition picks and fires the watches of their paths. -/
def removeAll (c : Coordinator) (isGone : LockNode → Bool) : Coordinator :=
  let gone := (c.nodes.filter isGone).map LockNode.path
  let fire (w : NodeWatch) : NodeWatch := { w with isFired := w.isFired || gone.contains w.path }
  { c with nodes := c.nodes.filter fun n => !isGone n, watches := c.watches.map fire }

/-- Deletes a node and answers whether there was one. -/
def delete (c : Coordinator) (session : Nat) (path : String) : Outcome Bool :=
  c.connected session fun _ => (.ok (c.hasNode path), c.removeAll fun n => n.path == path)

def onSession (c : Coordinator) (session : Nat) (f : Session → Session) : Coordinator :=
  { c with sessions := c.sessions.modify session f }

def disconnect (c : Coordinator) (session : Nat) : Coordinator :=
  c.onSession session fun s => { s with isConnected := false }.record .disconnected

def reconnect (c : Coordinator) (session : Nat) : Coordinator :=
  c.onSession session fun s => { s with isConnected := true }.record .reconnected

/-- Ends a session: its nodes are removed, and it goes on, connected, under a new identity. -/
def expire (c : Coordinator) (session : Nat) : Coordinator :=
  match c.sessions[session]? with
  | none => c
  | some s =>
    let identity := c.lastIdentity + 1
    let c := { c.removeAll (fun n => n.owner == s.identity) with lastIdentity := identity }
    c.onSession session fun s => { s with identity, isConnected := true }.record .expired

def nodeCount (c : Coordinator) : Nat := c.nodes.length

def eventCount (c : Coordinator) (session : Nat) : Nat :=
  match c.sessions[session]? with
  | some s => s.events.length
  | none => 0

def hasFired (c : Coordinator) (watch : Nat) : Bool :=
  (c.watches[watch]?).any NodeWatch.isFired

theorem removeAll_nodes (c : Coordinator) (isGone : LockNode → Bool) :
    (c.removeAll isGone).nodes = c.nodes.filter fun n => !isGone n := rfl

end Coordinator

end DurableQueue
