import DurableQueue.Proofs.Dispatch.CallStep

/-!
Calling handlers.

A dispatch of an entry comes to an `Invocation`, or is over without one (`Registry.invocation`).
`DispatchEvent` is what is told of dispatches: that one begins, and what its handler does until it ends.
`BusTask.dispatches` reads off a task before and after an action what it tells; after a dispatch began, the
events of its `course` are told one by one, and nothing else until the task begins the next
(`Dispatching`).
-/

namespace DurableQueue

/-- A handler that is called with an event. -/
structure Invocation where
  handler : RegisteredHandler
  event : Datum
  context : DispatchContext

/-- What the handler answers. -/
def Invocation.activity (v : Invocation) : Activity :=
  v.handler.handler.react v.handler.deliveries v.event v.context

namespace Registry

/-- The invocation that a dispatch of an entry comes to, or the outcome without one. -/
def invocation (r : Registry) (e : Entry) : Except DispatchOutcome Invocation :=
  match r.find? e.payload.eventType with
  | none => .error (.undecodable ("no handler registered for event type " ++ e.payload.eventType))
  | some h =>
    match h.handler.eventType.decode e.payload.body with
    | .error reason => .error (.undecodable reason)
    | .ok event => .ok ⟨h, event, .of e⟩

theorem prepare_eq (r : Registry) (e : Entry) :
    r.prepare e = (r.invocation e).map Invocation.activity := by
  unfold prepare invocation
  cases r.find? e.payload.eventType with
  | none => rfl
  | some h =>
    simp only
    cases h.handler.eventType.decode e.payload.body <;> rfl

variable {r r' : Registry} {e : Entry} {v : Invocation} {name : String} {h : Handler}

/-- A handler that is called is the registered one for the event type of the entry. -/
theorem find?_of_invocation (hv : r.invocation e = .ok v) :
    r.find? e.payload.eventType = some v.handler ∧
      v.handler.handler.eventType.decode e.payload.body = .ok v.event ∧ v.context = .of e := by
  unfold invocation at hv
  split at hv
  · cases hv
  · rename_i h hfind
    split at hv
    · cases hv
    · rename_i event hdecode
      cases hv
      exact ⟨hfind, hdecode, rfl⟩

theorem name_of_find? {h : RegisteredHandler} (hfind : r.find? name = some h) :
    h.handler.eventType.name = name :=
  beq_iff_eq.mp (List.find?_some hfind :)

theorem find?_register_of_ne (r : Registry) (hne : h.eventType.name ≠ name) :
    (r.register h).find? name = r.find? name := by
  have hnew : (h.eventType.name == name) = false := beq_eq_false_iff_ne.mpr hne
  simp only [find?, register, List.find?_append, List.find?_filter, List.find?_cons, List.find?_nil, hnew,
    Option.or_none]
  refine congrArg (fun p => r.handlers.find? p) (funext fun old => ?_)
  by_cases hold : old.handler.eventType.name = name
  · simp [hold, Ne.symm hne]
  · simp [hold]

/-- Of handlers registered in turn, the last one for an event type is found. -/
theorem find?_ofList (hs : List Handler) (name : String) :
    (ofList hs).find? name = (hs.reverse.find? fun h => h.eventType.name == name).map (⟨·, []⟩) := by
  induction hs using List.reverseRecOn with
  | nil => rfl
  | append_singleton hs h ih =>
    have hlast : ofList (hs ++ [h]) = (ofList hs).register h := by
      rw [ofList, ofList, List.foldl_append, List.foldl_cons, List.foldl_nil]
    rw [hlast, List.reverse_append, List.reverse_singleton, List.singleton_append, List.find?_cons]
    cases hname : h.eventType.name == name with
    | false => exact (find?_register_of_ne _ (beq_eq_false_iff_ne.mp hname)).trans ih
    | true =>
      rw [← beq_iff_eq.mp hname]
      exact find?_register _ h

/-- What handlers remember does not change who is found. -/
theorem SameHandlers.find? (hsame : r.SameHandlers r') (name : String) :
    (r'.find? name).map RegisteredHandler.handler = (r.find? name).map RegisteredHandler.handler := by
  have hmap : ∀ r : Registry, (r.find? name).map RegisteredHandler.handler =
      (r.handlers.map RegisteredHandler.handler).find? fun h => h.eventType.name == name := fun r => by
    rw [List.find?_map]
    rfl
  rw [hmap, hmap, hsame]

end Registry

/-- What is told of dispatches. -/
inductive DispatchEvent where
  /-- A dispatcher begins to dispatch a claim, which comes to this. -/
  | begun (t : BusTask) (node : Nat) (claim : Entry) (answer : Except DispatchOutcome Invocation)
  /-- The handler did something. -/
  | performed (t : BusTask) (effect : Effect)
  /-- The handler ended. -/
  | ended (t : BusTask) (outcome : DispatchOutcome)

/-- What is told of a dispatch after it began, if it is not cut off: all that the handler does, and how it
ends. -/
def DispatchEvent.course (t : BusTask) (e : Entry) : Except DispatchOutcome Invocation → List DispatchEvent
  | .ok v => v.activity.effects.map (.performed t) ++
      [.ended t (v.activity.result.outcome e.payload.eventType)]
  | .error _ => []

/-- What a task tells of its dispatches, and what it has still to tell of the last one. -/
inductive Dispatching (t : BusTask) : List DispatchEvent → List DispatchEvent → Prop where
  | nil : Dispatching t [] []
  /-- Only when all is told of a dispatch, the next one begins. -/
  | begun {log : List DispatchEvent} (h : Dispatching t log []) (k : Nat) (e : Entry)
    (answer : Except DispatchOutcome Invocation) :
    Dispatching t (log ++ [.begun t k e answer]) (DispatchEvent.course t e answer)
  | told {log rest : List DispatchEvent} {x : DispatchEvent} (h : Dispatching t log (x :: rest)) :
    Dispatching t (log ++ [x]) rest

namespace Attempt

/-- What is still to be told of an attempt. -/
def outstanding (t : BusTask) : Attempt → List DispatchEvent
  | handling e effects result | sleeping e _ effects result =>
    effects.map (.performed t) ++ [.ended t (result.outcome e.payload.eventType)]
  | _ => []

/-- What a step of an attempt tells. -/
def dispatches (t : BusTask) : Attempt → Attempt → List DispatchEvent
  | handling _ (effect :: rest) _, handling _ rest' _ =>
    if rest.length = rest'.length then [.performed t effect] else []
  | handling _ (effect :: _) _, sleeping _ _ _ _ => [.performed t effect]
  | handling _ [] _, judged _ outcome => [.ended t outcome]
  | _, _ => []

end Attempt

namespace Worker

/-- What a worker has still to tell; nothing is known of one that has stopped. -/
def outstanding (t : BusTask) : Option Worker → Option (List DispatchEvent)
  | some (busy a) => some (a.outstanding t)
  | some stopped => none
  | some idle | none => some []

/-- What a worker of a dispatcher tells. -/
def dispatches (t : BusTask) (k : Nat) (r : Registry) : Option Worker → Option Worker → List DispatchEvent
  | some idle, some (busy a) => [.begun t k a.entry (r.invocation a.entry)]
  | some (busy a), some (busy a') => a.dispatches t a'
  | _, _ => []

end Worker

namespace Call

/-- What a call has still to tell; nothing is known of one that is over. -/
def outstanding (t : BusTask) : Option Call → Option (List DispatchEvent)
  | some (process _ (.attempting _ a _)) => some (a.outstanding t)
  | some («over» _) => none
  | _ => some []

/-- What a call of one of the dispatchers tells. -/
def dispatches (t : BusTask) (nodes : List Node) : Option Call → Option Call → List DispatchEvent
  | some (process k (.between _ _)), some (process _ (.attempting _ a _)) =>
    match nodes[k]? with
    | some n => [.begun t k a.entry (n.registry.invocation a.entry)]
    | none => []
  | some (process _ (.attempting _ a _)), some (process _ (.attempting _ a' _)) => a.dispatches t a'
  | _, _ => []

end Call

namespace BusTask

/-- What a task has still to tell. -/
def outstanding (b : Bus) (t : BusTask) : Option (List DispatchEvent) :=
  match t with
  | worker k i => Worker.outstanding t (b.nodes[k]?.bind fun n => n.workers[i]?)
  | call i => Call.outstanding t b.calls[i]?
  | _ => some []

/-- What a task tells of its dispatches, from the bus before and after an action. -/
def dispatches (b b' : Bus) (t : BusTask) : List DispatchEvent :=
  match t with
  | worker k i =>
    match b.nodes[k]?, b'.nodes[k]? with
    | some n, some n' => Worker.dispatches t k n.registry n.workers[i]? n'.workers[i]?
    | _, _ => []
  | call i => Call.dispatches t b.nodes b.calls[i]? b'.calls[i]?
  | _ => []

end BusTask

/-- What a task tells of its dispatches in a run. -/
def Scene.dispatches (t : BusTask) (s : Scene) : List BusAction → List DispatchEvent
  | [] => []
  | x :: rest => t.dispatches s.bus (s.act x).bus ++ (s.act x).dispatches t rest

end DurableQueue
