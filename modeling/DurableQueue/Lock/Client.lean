import DurableQueue.Lock.Coordinator

/-!
Clients of the coordination service.

A `Client` speaks for one session. Calls of it can be made to fail: a fault that is waiting for a
method is answered in place of the service. `Coordination` holds the service and its clients; each
call is one atomic step. Without faults a call is the operation of the service (`call_of_faultless`).
-/

namespace DurableQueue

/-- What a client can be asked. -/
inductive ClientMethod where
  | create
  | children
  | watch
  | delete
deriving DecidableEq, Repr

namespace ClientMethod

def ofName? : String → Option ClientMethod
  | "create" => some create
  | "children" => some children
  | "watch" => some watch
  | "delete" => some delete
  | _ => none

end ClientMethod

/-- What the client answers in place of the service. -/
inductive ClientFault where
  | failure (method : ClientMethod) (error : LockError)
  /-- A watch finds no node. -/
  | absence
deriving DecidableEq, Repr

namespace ClientFault

/-- The method whose next call meets the fault. -/
def method : ClientFault → ClientMethod
  | failure method _ => method
  | absence => .watch

/-- The fault that a text asks for. -/
def ofText (method : ClientMethod) (text : String) : ClientFault :=
  if text = "ConnectionLoss" then failure method .connectionLoss
  else if method = .watch ∧ text = "none" then absence
  else failure method (.coordination text)

end ClientFault

/-- A client of one session. -/
structure Client where
  /-- The number of its session. -/
  session : Nat
  /-- The faults that its calls are to meet, in order. -/
  faults : List ClientFault

namespace Client

/-- Takes the next fault of a method. -/
def takeFault (c : Client) (method : ClientMethod) : Option ClientFault × Client :=
  match c.faults.find? fun f => f.method == method with
  | some f => (some f, { c with faults := c.faults.erase f })
  | none => (none, c)

theorem takeFault_of_faultless {c : Client} (h : c.faults = []) (method : ClientMethod) :
    c.takeFault method = (none, c) := by
  simp [takeFault, h]

end Client

/-- The service and its clients. -/
structure Coordination where
  coordinator : Coordinator
  clients : List Client

namespace Coordination

def empty : Coordination := ⟨.empty, []⟩

instance : Inhabited Coordination := ⟨empty⟩

/-- An answer or an error, and service and clients afterwards. -/
abbrev Outcome (α : Type) := Except LockError α × Coordination

/-- The session of a client; a client that is not there has none. -/
def sessionOf (c : Coordination) (client : Nat) : Nat :=
  match c.clients[client]? with
  | some cl => cl.session
  | none => c.coordinator.sessions.length

/-- Takes the next fault of a method of a client. -/
def takeFault (c : Coordination) (client : Nat) (method : ClientMethod) :
    Option ClientFault × Coordination :=
  match c.clients[client]? with
  | none => (none, c)
  | some cl =>
    let (fault, cl) := cl.takeFault method
    (fault, { c with clients := c.clients.set client cl })

/-- Calls the service on behalf of a client, unless a fault is waiting; `absent` is the answer that
no node was found. -/
def call {α : Type} (c : Coordination) (client : Nat) (method : ClientMethod) (absent : α)
    (op : Coordinator → Nat → Coordinator.Outcome α) : Outcome α :=
  match c.takeFault client method with
  | (some (.failure _ e), c) => (.error e, c)
  | (some .absence, c) => (.ok absent, c)
  | (none, c) =>
    let (answer, coordinator) := op c.coordinator (c.sessionOf client)
    (answer, { c with coordinator })

def create (c : Coordination) (client : Nat) (start : String) : Outcome String :=
  c.call client .create "" fun service session => service.create session start

def children (c : Coordination) (client : Nat) (parent : String) : Outcome (List String) :=
  c.call client .children [] fun service session => service.children session parent

/-- Sets a watch for the deletion of a node. -/
def watch (c : Coordination) (client : Nat) (path : String) : Outcome (Option Nat) :=
  c.call client .watch none fun service session => service.watch session path

def delete (c : Coordination) (client : Nat) (path : String) : Outcome Bool :=
  c.call client .delete false fun service session => service.delete session path

/-- Opens a session and answers its first client. -/
def openSession (c : Coordination) : Nat × Coordination :=
  let (session, coordinator) := c.coordinator.openSession
  (c.clients.length, { coordinator, clients := c.clients ++ [⟨session, []⟩] })

/-- Adds a client of the session of another one. -/
def clone (c : Coordination) (client : Nat) : Nat × Coordination :=
  (c.clients.length, { c with clients := c.clients ++ [⟨c.sessionOf client, []⟩] })

/-- Makes the next calls of a client meet a fault. -/
def inject (c : Coordination) (client : Nat) (fault : ClientFault) (count : Nat) : Coordination :=
  { c with clients := c.clients.modify client fun cl =>
      { cl with faults := cl.faults ++ List.replicate count fault } }

/-- Changes the service on behalf of the session of a client. -/
def onSession (c : Coordination) (client : Nat) (f : Coordinator → Nat → Coordinator) :
    Coordination :=
  { c with coordinator := f c.coordinator (c.sessionOf client) }

/-- Whether no call is going to meet a fault. -/
def IsFaultless (c : Coordination) : Prop := ∀ cl ∈ c.clients, cl.faults = []

theorem takeFault_of_faultless {c : Coordination} (h : c.IsFaultless) (client : Nat)
    (method : ClientMethod) : c.takeFault client method = (none, c) := by
  unfold takeFault
  cases hc : c.clients[client]? with
  | none => rfl
  | some cl =>
    obtain ⟨hlt, rfl⟩ := List.getElem?_eq_some_iff.mp hc
    simp [Client.takeFault_of_faultless (h _ (List.getElem_mem hlt)) method]

theorem call_of_faultless {α : Type} {c : Coordination} (h : c.IsFaultless) (client : Nat)
    (method : ClientMethod) (absent : α) (op : Coordinator → Nat → Coordinator.Outcome α) :
    c.call client method absent op =
      ((op c.coordinator (c.sessionOf client)).1,
        { c with coordinator := (op c.coordinator (c.sessionOf client)).2 }) := by
  simp [call, takeFault_of_faultless h]

end Coordination

end DurableQueue
