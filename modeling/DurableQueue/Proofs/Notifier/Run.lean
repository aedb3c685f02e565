import DurableQueue.Notifier.Basic
import DurableQueue.Proofs.Lists
import Mathlib.Data.List.Basic
import Mathlib.Data.List.TakeWhile

/-!
Everything that can happen to a notifier, in any order.

A `Board` is a notifier with every announcement that was ever begun. A `NotifierAction` is one atomic
step of an announcement, a registration or a subscription by anybody, or something that a subscriber
does; so announcements interleave with each other and with all else, also between the reactions of one
callback. `Board.log` tells of a run what was registered, called, sent and taken, and the functions on
`BoardEvent`s read off it what concerns one outcome, one announcement or one subscription.
`Board.Turn` lists what one action can do.

`run_fire` ties the steps to `Notifier.fire`: an announcement that nothing comes between ends as
`fire` does.
-/

namespace DurableQueue

/-- Something that happens to a notifier. -/
inductive NotifierAction where
  /-- Somebody begins an announcement. -/
  | fire (e : TransactionEvent)
  /-- An announcement takes its next step. -/
  | proceed (i : Nat)
  /-- Somebody registers a callback or opens a subscription. -/
  | react (r : Reaction)
  /-- A subscriber takes one commit; a `drain` that others come between is a series of these. -/
  | receive (id : SubscriptionId)
  | drain (id : SubscriptionId)
  | unsubscribe (id : SubscriptionId)

/-- What is told of a run. -/
inductive BoardEvent where
  | registered (o : TransactionOutcome) (c : Callback)
  | opened (id : SubscriptionId)
  | closed (id : SubscriptionId)
  | begun (i : Nat) (e : TransactionEvent)
  | called (i : Nat) (c : Callback)
  | sent (i : Nat) (e : TransactionEvent) (id : SubscriptionId)
  | ended (i : Nat)
  /-- A subscriber took these commits. -/
  | taken (id : SubscriptionId) (es : List TransactionEvent)

namespace BoardEvent

/-- The announcement that is concerned. -/
def firing? : BoardEvent → Option Nat
  | begun i _ | called i _ | sent i _ _ | ended i => some i
  | _ => none

/-- The subscription that is opened or closed. -/
def subscription? : BoardEvent → Option SubscriptionId
  | opened id | closed id => some id
  | _ => none

def isBegun (i : Nat) : BoardEvent → Bool
  | begun j _ => j == i
  | _ => false

/-- The callbacks registered for an outcome, in order. -/
def registrations (o : TransactionOutcome) (log : List BoardEvent) : List Callback :=
  log.filterMap fun
    | registered o' c => if o' = o then some c else none
    | _ => none

/-- The callbacks that an announcement called, in order. -/
def calls (i : Nat) (log : List BoardEvent) : List Callback :=
  log.filterMap fun
    | called j c => if j = i then some c else none
    | _ => none

/-- What was sent to a subscription, in order: the numbers of the announcements and their commits. -/
def deliveries (id : SubscriptionId) (log : List BoardEvent) : List (Nat × TransactionEvent) :=
  log.filterMap fun
    | sent i e id' => if id' = id then some (i, e) else none
    | _ => none

/-- What was taken from a subscription, in order. -/
def received (id : SubscriptionId) (log : List BoardEvent) : List TransactionEvent :=
  log.flatMap fun
    | taken id' es => if id' = id then es else []
    | _ => []

/-- A subscription was opened and is not closed. -/
def Live (id : SubscriptionId) (log : List BoardEvent) : Prop := .opened id ∈ log ∧ .closed id ∉ log

/-- What was told before an announcement began. -/
def before (i : Nat) (log : List BoardEvent) : List BoardEvent := log.takeWhile fun x => !x.isBegun i

variable (log more : List BoardEvent)

@[simp] theorem registrations_append (o : TransactionOutcome) :
    registrations o (log ++ more) = registrations o log ++ registrations o more :=
  List.filterMap_append

@[simp] theorem calls_append (i : Nat) : calls i (log ++ more) = calls i log ++ calls i more :=
  List.filterMap_append

@[simp] theorem deliveries_append (id : SubscriptionId) :
    deliveries id (log ++ more) = deliveries id log ++ deliveries id more :=
  List.filterMap_append

@[simp] theorem received_append (id : SubscriptionId) :
    received id (log ++ more) = received id log ++ received id more :=
  List.flatMap_append

variable {log more} {i : Nat} {id : SubscriptionId} {e : TransactionEvent}

/-- A subscription stays as it is while it is neither opened nor closed. -/
theorem live_append (h : ∀ x ∈ more, x.subscription? ≠ some id) : Live id (log ++ more) ↔ Live id log := by
  have hopened : .opened id ∉ more := fun hmem => h _ hmem rfl
  have hclosed : .closed id ∉ more := fun hmem => h _ hmem rfl
  simp [Live, hopened, hclosed]

theorem mem_deliveries_iff {d : Nat × TransactionEvent} :
    d ∈ deliveries id log ↔ .sent d.1 d.2 id ∈ log := by
  rw [deliveries, List.mem_filterMap]
  constructor
  · rintro ⟨x, hx, hd⟩
    cases x with
    | sent j e' id' =>
      simp only [Option.ite_none_right_eq_some, Option.some.injEq] at hd
      obtain ⟨rfl, rfl⟩ := hd
      exact hx
    | _ => cases hd
  · intro hsent
    exact ⟨_, hsent, if_pos rfl⟩

theorem isBegun_iff {x : BoardEvent} : x.isBegun i = true ↔ ∃ e, x = .begun i e := by
  cases x with
  | begun j e' => simp [isBegun]
  | _ => simp [isBegun]

/-- Once an announcement has begun, what was told before it does not change. -/
theorem before_append (h : .begun i e ∈ log) : before i (log ++ more) = before i log := by
  have hlt : ¬ (log.takeWhile fun x => !x.isBegun i).length = log.length := by
    intro hall
    have heq : (log.takeWhile fun x => !x.isBegun i) = log :=
      (List.takeWhile_prefix _).eq_of_length hall
    have hnot := List.mem_takeWhile_imp (heq.symm ▸ h)
    simp [isBegun] at hnot
  rw [before, List.takeWhile_append, if_neg hlt]
  rfl

/-- Of an announcement that is not told of, everything comes before. -/
theorem before_of_fresh (h : ∀ x ∈ log, x.firing? ≠ some i) (e : TransactionEvent) :
    before i (log ++ [.begun i e]) = log := by
  have hall : ∀ x ∈ log, (!x.isBegun i) = true := by
    intro x hx
    cases hbegun : x.isBegun i with
    | false => rfl
    | true =>
      obtain ⟨e', rfl⟩ := isBegun_iff.mp hbegun
      exact absurd rfl (h _ hx)
  rw [before, List.takeWhile_append_of_pos hall]
  simp [isBegun]

end BoardEvent

/-- What a reaction tells. -/
def Reaction.tells (n : Notifier) : Reaction → List BoardEvent
  | .onCommit c => [.registered .commit c]
  | .onRollback c => [.registered .rollback c]
  | .subscribe => [.opened n.subscriptions.length]

namespace Firing

/-- What is announced. -/
def event : Firing → TransactionEvent
  | calling e _ _ | sending e _ | finished e => e

/-- The callbacks that are still to be called. -/
def uncalled : Firing → List Callback
  | calling _ _ rest => rest
  | _ => []

/-- The subscribers that are still to be sent the commit. -/
def unsent : Firing → List SubscriptionId
  | sending _ rest => rest
  | _ => []

def isOver : Firing → Bool
  | finished _ => true
  | _ => false

/-- What the next step of an announcement tells. -/
def tells (n : Notifier) (i : Nat) : Firing → List BoardEvent
  | calling _ (r :: _) _ => r.tells n
  | calling _ [] (c :: _) => [.called i c]
  | calling e [] [] =>
    match e.outcome with
    | .commit => []
    | .rollback => [.ended i]
  | sending e (id :: _) => [.sent i e id]
  | sending _ [] => [.ended i]
  | finished _ => []

end Firing

/-- A notifier and every announcement that was ever begun, each at the place of its number. -/
structure Board where
  notifier : Notifier
  firings : List Firing

namespace Board

def empty : Board := ⟨.empty, []⟩

/-- A board after something happened. -/
def act (b : Board) : NotifierAction → Board
  | .fire e => { b with firings := b.firings ++ [.start b.notifier e] }
  | .proceed i =>
    match b.firings[i]?.bind (Firing.step? b.notifier) with
    | some (f, notifier) => ⟨notifier, b.firings.set i f⟩
    | none => b
  | .react r => { b with notifier := b.notifier.react r }
  | .receive id => { b with notifier := (b.notifier.receive id).2 }
  | .drain id => { b with notifier := (b.notifier.drain id).2 }
  | .unsubscribe id => { b with notifier := b.notifier.unsubscribe id }

/-- What an action tells. -/
def tells (b : Board) : NotifierAction → List BoardEvent
  | .fire e => [.begun b.firings.length e]
  | .proceed i =>
    match b.firings[i]? with
    | some f => f.tells b.notifier i
    | none => []
  | .react r => r.tells b.notifier
  | .receive id => [.taken id (b.notifier.receive id).1.toList]
  | .drain id => [.taken id (b.notifier.drain id).1]
  | .unsubscribe id => if b.notifier.isOpen id then [.closed id] else []

/-- A board after all of this happened. -/
def run (b : Board) (actions : List NotifierAction) : Board := actions.foldl act b

/-- What a run tells. -/
def log (b : Board) : List NotifierAction → List BoardEvent
  | [] => []
  | x :: rest => b.tells x ++ (b.act x).log rest

/-- What one action does, and tells. -/
inductive Turn : Board → List BoardEvent → Board → Prop where
  | idle (b : Board) : Turn b [] b
  | begun (n : Notifier) (fs : List Firing) (e : TransactionEvent) :
    Turn ⟨n, fs⟩ [.begun fs.length e] ⟨n, fs ++ [.start n e]⟩
  | reacted (n : Notifier) (fs : List Firing) (r : Reaction) : Turn ⟨n, fs⟩ (r.tells n) ⟨n.react r, fs⟩
  /-- A callback that was called reacts. -/
  | answered (n : Notifier) {fs : List Firing} {i : Nat} {e : TransactionEvent} {r : Reaction}
    {reactions : List Reaction} {rest : List Callback}
    (hi : fs[i]? = some (.calling e (r :: reactions) rest)) :
    Turn ⟨n, fs⟩ (r.tells n) ⟨n.react r, fs.set i (.calling e reactions rest)⟩
  | called (n : Notifier) {fs : List Firing} {i : Nat} {e : TransactionEvent} {c : Callback}
    {rest : List Callback} (hi : fs[i]? = some (.calling e [] (c :: rest))) :
    Turn ⟨n, fs⟩ [.called i c] ⟨n, fs.set i (.calling e c.reactions rest)⟩
  /-- The subscribers are noted. -/
  | noted (n : Notifier) {fs : List Firing} {i : Nat} {e : TransactionEvent}
    (hi : fs[i]? = some (.calling e [] [])) (commit : e.outcome = .commit) :
    Turn ⟨n, fs⟩ [] ⟨n, fs.set i (.sending e n.subscribers)⟩
  | sent (n : Notifier) {fs : List Firing} {i : Nat} {e : TransactionEvent} {id : SubscriptionId}
    {rest : List SubscriptionId} (hi : fs[i]? = some (.sending e (id :: rest))) :
    Turn ⟨n, fs⟩ [.sent i e id] ⟨n.send id e, fs.set i (.sending e rest)⟩
  | ended (n : Notifier) {fs : List Firing} {i : Nat} {e : TransactionEvent}
    (hi : fs[i]? = some (.calling e [] []) ∧ e.outcome = .rollback ∨ fs[i]? = some (.sending e [])) :
    Turn ⟨n, fs⟩ [.ended i] ⟨n, fs.set i (.finished e)⟩
  | received (n : Notifier) (fs : List Firing) (id : SubscriptionId) :
    Turn ⟨n, fs⟩ [.taken id (n.receive id).1.toList] ⟨(n.receive id).2, fs⟩
  | drained (n : Notifier) (fs : List Firing) (id : SubscriptionId) :
    Turn ⟨n, fs⟩ [.taken id (n.drain id).1] ⟨(n.drain id).2, fs⟩
  | closed (n : Notifier) (fs : List Firing) (id : SubscriptionId) :
    Turn ⟨n, fs⟩ (if n.isOpen id then [.closed id] else []) ⟨n.unsubscribe id, fs⟩

variable {b : Board}

theorem turn_proceed (b : Board) (i : Nat) : Turn b (b.tells (.proceed i)) (b.act (.proceed i)) := by
  obtain ⟨n, fs⟩ := b
  simp only [tells, act]
  cases hi : fs[i]? with
  | none => exact .idle _
  | some f =>
    cases f with
    | calling e reactions rest =>
      cases reactions with
      | cons r reactions => exact .answered n hi
      | nil =>
        cases rest with
        | cons c rest => exact .called n hi
        | nil =>
          cases houtcome : e.outcome with
          | commit =>
            simp only [Firing.tells, Firing.step?, houtcome, Option.bind_some]
            exact .noted n hi houtcome
          | rollback =>
            simp only [Firing.tells, Firing.step?, houtcome, Option.bind_some]
            exact .ended n (.inl ⟨hi, houtcome⟩)
    | sending e rest =>
      cases rest with
      | cons id rest => exact .sent n hi
      | nil => exact .ended n (.inr hi)
    | finished e => exact .idle _

/-- Every action is a turn. -/
theorem turn_act (b : Board) (x : NotifierAction) : Turn b (b.tells x) (b.act x) := by
  cases x with
  | fire e => exact .begun _ _ e
  | proceed i => exact turn_proceed b i
  | react r => exact .reacted _ _ r
  | receive id => exact .received _ _ id
  | drain id => exact .drained _ _ id
  | unsubscribe id => exact .closed _ _ id

theorem run_append (b : Board) (xs ys : List NotifierAction) :
    b.run (xs ++ ys) = (b.run xs).run ys :=
  List.foldl_append

theorem log_append (b : Board) (xs ys : List NotifierAction) :
    b.log (xs ++ ys) = b.log xs ++ (b.run xs).log ys := by
  induction xs generalizing b with
  | nil => rfl
  | cons x xs ih =>
    rw [List.cons_append, log, log, ih, List.append_assoc]
    rfl

/-- From one board to another by steps of one announcement alone, which calls these callbacks. -/
def ProceedsTo (i : Nat) (b : Board) (called : List Callback) (b' : Board) : Prop :=
  ∃ count : Nat, b.run (List.replicate count (.proceed i)) = b' ∧
    BoardEvent.calls i (b.log (List.replicate count (.proceed i))) = called

namespace ProceedsTo

variable {i : Nat} {b' b'' : Board} {called called' : List Callback}

theorem refl (i : Nat) (b : Board) : ProceedsTo i b [] b := ⟨0, rfl, rfl⟩

theorem trans (h : ProceedsTo i b called b') (h' : ProceedsTo i b' called' b'') :
    ProceedsTo i b (called ++ called') b'' := by
  obtain ⟨count, rfl, rfl⟩ := h
  obtain ⟨count', rfl, rfl⟩ := h'
  refine ⟨count + count', ?_, ?_⟩
  · rw [List.replicate_add, run_append]
  · rw [List.replicate_add, log_append, BoardEvent.calls_append]

theorem step (hact : b.act (.proceed i) = b')
    (hcalled : BoardEvent.calls i (b.tells (.proceed i)) = called) : ProceedsTo i b called b' := by
  refine ⟨1, hact, ?_⟩
  rw [List.replicate_one, log, log, List.append_nil, hcalled]

end ProceedsTo

section Alone

variable {i : Nat} {n : Notifier} {fs : List Firing} {f g : Firing} {e : TransactionEvent}

theorem proceedsTo_step {n' : Notifier} (hi : fs[i]? = some f) (hstep : f.step? n = some (g, n')) :
    ProceedsTo i ⟨n, fs⟩ (BoardEvent.calls i (f.tells n i)) ⟨n', fs.set i g⟩ := by
  refine .step ?_ ?_
  · simp only [act, hi, Option.bind_some, hstep]
  · simp only [tells, hi]

/-- A callback that was called reacts to the end. -/
theorem proceedsTo_reacted {reactions : List Reaction} {rest : List Callback}
    (hi : fs[i]? = some (.calling e reactions rest)) :
    ProceedsTo i ⟨n, fs⟩ [] ⟨reactions.foldl Notifier.react n, fs.set i (.calling e [] rest)⟩ := by
  induction reactions generalizing n fs with
  | nil =>
    rw [set_of_getElem? hi]
    exact .refl _ _
  | cons r reactions ih =>
    have hstep := proceedsTo_step (n := n) hi rfl
    have hcalled : BoardEvent.calls i (r.tells n) = [] := by cases r <;> rfl
    rw [Firing.tells, hcalled] at hstep
    have hrest := ih (n := n.react r) (getElem?_set_of_some hi _)
    rw [List.set_set] at hrest
    exact hstep.trans hrest

/-- All callbacks that were noted are called in turn. -/
theorem proceedsTo_called {rest : List Callback} (hi : fs[i]? = some (.calling e [] rest)) :
    ProceedsTo i ⟨n, fs⟩ rest ⟨rest.foldl Notifier.call n, fs.set i (.calling e [] [])⟩ := by
  induction rest generalizing n fs with
  | nil =>
    rw [set_of_getElem? hi]
    exact .refl _ _
  | cons c rest ih =>
    have hstep := proceedsTo_step (n := n) hi rfl
    have hcalled : BoardEvent.calls i [.called i c] = [c] := by simp [BoardEvent.calls]
    rw [Firing.tells, hcalled] at hstep
    have hreacted := proceedsTo_reacted (n := n) (getElem?_set_of_some hi (.calling e c.reactions rest))
    rw [List.set_set] at hreacted
    have hrest := ih (n := n.call c) (getElem?_set_of_some hi (.calling e [] rest))
    rw [List.set_set] at hrest
    exact hstep.trans (hreacted.trans hrest)

/-- All subscribers that were noted are sent the commit. -/
theorem proceedsTo_sent {rest : List SubscriptionId} (hi : fs[i]? = some (.sending e rest)) :
    ProceedsTo i ⟨n, fs⟩ [] ⟨rest.foldl (fun n id => n.send id e) n, fs.set i (.finished e)⟩ := by
  induction rest generalizing n fs with
  | nil => exact proceedsTo_step (n := n) hi rfl
  | cons id rest ih =>
    have hstep := proceedsTo_step (n := n) hi rfl
    have hrest := ih (n := n.send id e) (getElem?_set_of_some hi (.sending e rest))
    rw [List.set_set] at hrest
    exact hstep.trans hrest

/-- Once all callbacks were called, a commit goes to the subscribers of then. -/
theorem proceedsTo_finished (hi : fs[i]? = some (.calling e [] [])) :
    ProceedsTo i ⟨n, fs⟩ []
      ⟨match e.outcome with
        | .commit => n.subscribers.foldl (fun n id => n.send id e) n
        | .rollback => n, fs.set i (.finished e)⟩ := by
  cases houtcome : e.outcome with
  | commit =>
    have hstep : (Firing.calling e [] []).step? n = some (.sending e n.subscribers, n) := by
      simp only [Firing.step?, houtcome]
    have hnoted := proceedsTo_step hi hstep
    simp only [Firing.tells, houtcome] at hnoted
    have hsent := proceedsTo_sent (n := n) (getElem?_set_of_some hi (.sending e n.subscribers))
    rw [List.set_set] at hsent
    exact hnoted.trans hsent
  | rollback =>
    have hstep : (Firing.calling e [] []).step? n = some (.finished e, n) := by
      simp only [Firing.step?, houtcome]
    have hended := proceedsTo_step hi hstep
    simp only [Firing.tells, houtcome] at hended
    exact hended

/-- However far an announcement is, its own steps end it. -/
theorem proceedsTo_over (n : Notifier) (hi : fs[i]? = some f) :
    ∃ called n', ProceedsTo i ⟨n, fs⟩ called ⟨n', fs.set i (.finished f.event)⟩ := by
  cases f with
  | calling e reactions rest =>
    have hreacted := proceedsTo_reacted (n := n) hi
    have hcalled := proceedsTo_called (n := reactions.foldl Notifier.react n)
      (getElem?_set_of_some hi (.calling e [] rest))
    have hfinished := proceedsTo_finished
      (n := rest.foldl Notifier.call (reactions.foldl Notifier.react n))
      (getElem?_set_of_some hi (.calling e [] []))
    rw [List.set_set] at hcalled hfinished
    exact ⟨_, _, hreacted.trans (hcalled.trans hfinished)⟩
  | sending e rest => exact ⟨_, _, proceedsTo_sent hi⟩
  | finished e =>
    have hsame : fs.set i (.finished (Firing.finished e).event) = fs := set_of_getElem? hi
    rw [hsame]
    exact ⟨_, _, .refl _ _⟩

/-- An announcement that nothing comes between ends, and does what `Notifier.fire` does at once. -/
theorem run_fire (b : Board) (e : TransactionEvent) :
    ∃ called, called.map Callback.name = (b.notifier.fire e).1 ∧
      ProceedsTo b.firings.length (b.act (.fire e)) called
        ⟨(b.notifier.fire e).2, b.firings ++ [.finished e]⟩ := by
  obtain ⟨n, fs⟩ := b
  have hset : ∀ f g : Firing, (fs ++ [f]).set fs.length g = fs ++ [g] := fun f g => by simp
  have hstart : (fs ++ [.start n e])[fs.length]? = some (.calling e [] (n.callbacks e.outcome)) := by
    simp [Firing.start]
  have hcalled := proceedsTo_called (n := n) hstart
  have hfinished := proceedsTo_finished (n := (n.callbacks e.outcome).foldl Notifier.call n)
    (getElem?_set_of_some hstart (.calling e [] []))
  rw [hset] at hcalled
  rw [List.set_set, hset, hset] at hfinished
  refine ⟨n.callbacks e.outcome ++ [], by rw [List.append_nil]; rfl, ?_⟩
  exact hcalled.trans hfinished

end Alone

end Board

end DurableQueue
