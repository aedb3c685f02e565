import DurableQueue.Dispatch.Hub
import DurableQueue.Proofs.Notifier.Run

/-!
A store that announces its appends, among its other clients.

An append inserts its entry in one step and announces it in later ones, so that others may claim,
resolve and purge the entry, and appends overtake each other, before anybody is told
(`AppendCall`). An `AnnouncedStore` is the store, the notifier with its announcements and all appends
that were ever called; an `AnnouncedAction` is one atomic step of an append, an operation of any client
or something that listeners do.

`run_append` ties the steps to `Hub.append`: an append that nothing comes between ends as that does.
-/

namespace DurableQueue

/-- Where a call of an append is. -/
inductive AppendCall where
  /-- The store refused it; nothing is stored and nothing will be announced. -/
  | refused (error : StoreError)
  /-- Its entry is stored, and nobody has been told yet. -/
  | inserted (e : Entry)
  /-- Its entry is being announced. -/
  | announcing (e : Entry) (firing : Nat)
  /-- The announcement is over, and the caller has its entry. -/
  | returned (e : Entry) (firing : Nat)

namespace AppendCall

/-- A call that the store has answered. -/
def ofAnswer : Except StoreError Entry → AppendCall
  | .ok e => inserted e
  | .error error => refused error

/-- The entry that was inserted. -/
def entry? : AppendCall → Option Entry
  | refused _ => none
  | inserted e | announcing e _ | returned e _ => some e

/-- The announcement that the call has begun, with its number. -/
def announced? : AppendCall → Option (Nat × TransactionEvent)
  | refused _ | inserted _ => none
  | announcing e i | returned e i => some (i, .appended e)

/-- A call appends what it was asked to. -/
def IsOf (asked : NewEntry × Timestamp) (call : AppendCall) : Prop :=
  ∀ e, call.entry? = some e → ∃ id, e = .ofNew id asked.1 asked.2

end AppendCall

/-- A store, the announcements of its appends and every append that was ever called, each at the place
of its number. -/
structure AnnouncedStore where
  store : Store
  board : Board
  appends : List AppendCall

/-- Something that happens to a store that announces its appends. -/
inductive AnnouncedAction where
  /-- A client operates on the store. An append is called and inserts its entry. -/
  | operate (op : StoreOp) (now : Timestamp)
  /-- An append that has inserted its entry takes its next step. -/
  | proceed (call : Nat)
  /-- A listener registers, opens or closes a subscription, or takes commits. -/
  | listen (x : NotifierAction)

/-- What only an append does to the notifier. -/
def NotifierAction.announces : NotifierAction → Bool
  | .fire _ | .proceed _ => true
  | _ => false

namespace BoardEvent

/-- The announcements that were begun, with their numbers. -/
def announced (log : List BoardEvent) : List (Nat × TransactionEvent) :=
  log.filterMap fun
    | begun i e => some (i, e)
    | _ => none

/-- A callback was called with a transaction, or a subscriber took it. -/
def Seen (e : TransactionEvent) (log : List BoardEvent) : Prop :=
  (∃ i c, .begun i e ∈ log ∧ .called i c ∈ log) ∨ ∃ id es, .taken id es ∈ log ∧ e ∈ es

@[simp] theorem announced_append (log more : List BoardEvent) :
    announced (log ++ more) = announced log ++ announced more :=
  List.filterMap_append

theorem mem_announced_iff {log : List BoardEvent} {i : Nat} {e : TransactionEvent} :
    (i, e) ∈ announced log ↔ .begun i e ∈ log := by
  rw [announced, List.mem_filterMap]
  constructor
  · rintro ⟨x, hx, hsome⟩
    cases x with
    | begun j e' =>
      cases hsome
      exact hx
    | _ => cases hsome
  · intro hbegun
    exact ⟨_, hbegun, rfl⟩

theorem announced_eq_nil {more : List BoardEvent} (h : ∀ i e, .begun i e ∉ more) : announced more = [] :=
  List.eq_nil_iff_forall_not_mem.mpr fun d hd => h d.1 d.2 (mem_announced_iff.mp hd)

end BoardEvent

/-- What an action asks to be appended, and when. -/
def AnnouncedAction.asked? : AnnouncedAction → Option (NewEntry × Timestamp)
  | .operate (.append new) now => some (new, now)
  | _ => none

namespace AnnouncedStore

def empty : AnnouncedStore := ⟨.empty, .empty, []⟩

/-- The next step of an append: it begins its announcement, takes a step of it, or returns. -/
def proceed (s : AnnouncedStore) (c : Nat) : AnnouncedStore :=
  match s.appends[c]? with
  | some (.inserted e) =>
    { s with board := s.board.act (.fire (.appended e))
             appends := s.appends.set c (.announcing e s.board.firings.length) }
  | some (.announcing e i) =>
    match s.board.firings[i]? with
    | some (.finished _) => { s with appends := s.appends.set c (.returned e i) }
    | _ => { s with board := s.board.act (.proceed i) }
  | _ => s

/-- A store after something happened. -/
def act (s : AnnouncedStore) : AnnouncedAction → AnnouncedStore
  | .operate (.append new) now =>
    { s with store := (s.store.append new now).2
             appends := s.appends ++ [.ofAnswer (s.store.append new now).1] }
  | .operate op now => { s with store := (s.store.apply op now).2 }
  | .proceed c => s.proceed c
  | .listen x => if x.announces then s else { s with board := s.board.act x }

/-- What an action tells of the notifier. -/
def tells (s : AnnouncedStore) : AnnouncedAction → List BoardEvent
  | .operate _ _ => []
  | .proceed c =>
    match s.appends[c]? with
    | some (.inserted e) => s.board.tells (.fire (.appended e))
    | some (.announcing _ i) => s.board.tells (.proceed i)
    | _ => []
  | .listen x => if x.announces then [] else s.board.tells x

/-- A store after all of this happened. -/
def run (s : AnnouncedStore) (actions : List AnnouncedAction) : AnnouncedStore := actions.foldl act s

/-- What a run tells of the notifier. -/
def log (s : AnnouncedStore) : List AnnouncedAction → List BoardEvent
  | [] => []
  | x :: rest => s.tells x ++ (s.act x).log rest

section Alone

variable {s : AnnouncedStore} {c i : Nat} {e : Entry} {f : TransactionEvent}

/-- An announcement that is over takes no steps. -/
theorem act_proceed_of_finished {b : Board} (hi : b.firings[i]? = some (.finished f)) :
    b.act (.proceed i) = b := by
  simp only [Board.act, hi, Option.bind_some, Firing.step?]

/-- An append returns once steps of its own have ended its announcement. -/
theorem run_announcing {count : Nat} (hc : s.appends[c]? = some (.announcing e i))
    (hover : (s.board.run (List.replicate count (.proceed i))).firings[i]? = some (.finished f)) :
    ∃ steps : Nat, s.run (List.replicate steps (.proceed c)) =
      { s with board := s.board.run (List.replicate count (.proceed i))
               appends := s.appends.set c (.returned e i) } := by
  induction count generalizing s with
  | zero =>
    have hi : s.board.firings[i]? = some (.finished f) := hover
    refine ⟨1, ?_⟩
    simp only [List.replicate_one, run, List.foldl_cons, List.foldl_nil, act, proceed, hc, hi]
    rfl
  | succ count ih =>
    have hnext : s.board.run (List.replicate (count + 1) (.proceed i)) =
        (s.board.act (.proceed i)).run (List.replicate count (.proceed i)) := rfl
    rw [hnext] at hover ⊢
    by_cases hdone : ∃ f', s.board.firings[i]? = some (.finished f')
    · obtain ⟨f', hi⟩ := hdone
      rw [act_proceed_of_finished hi] at hover ⊢
      exact ih hc hover
    · have hstep : s.act (.proceed c) = { s with board := s.board.act (.proceed i) } := by
        simp only [act, proceed, hc]
        split
        · rename_i f' hi
          exact absurd ⟨f', hi⟩ hdone
        · rfl
      obtain ⟨steps, hsteps⟩ := ih (s := { s with board := s.board.act (.proceed i) }) hc hover
      refine ⟨steps + 1, ?_⟩
      rw [List.replicate_succ, run, List.foldl_cons, hstep]
      exact hsteps

/-- An append that has inserted its entry and that nothing comes between announces it as
`Notifier.fire` does at once, and returns. -/
theorem run_inserted (hc : s.appends[c]? = some (.inserted e)) :
    ∃ steps : Nat, s.run (List.replicate steps (.proceed c)) =
      { s with board := ⟨(s.board.notifier.fire (.appended e)).2,
                 s.board.firings ++ [.finished (.appended e)]⟩
               appends := s.appends.set c (.returned e s.board.firings.length) } := by
  have hstep : s.act (.proceed c) = { s with
      board := s.board.act (.fire (.appended e))
      appends := s.appends.set c (.announcing e s.board.firings.length) } := by
    simp only [act, proceed, hc]
  obtain ⟨called, -, count, hrun, -⟩ := s.board.run_fire (.appended e)
  have hover : ((s.board.act (.fire (.appended e))).run
      (List.replicate count (.proceed s.board.firings.length))).firings[s.board.firings.length]? =
        some (.finished (.appended e)) := by
    rw [hrun]
    simp
  obtain ⟨steps, hsteps⟩ := run_announcing
    (s := { s with board := s.board.act (.fire (.appended e))
                   appends := s.appends.set c (.announcing e s.board.firings.length) })
    (getElem?_set_of_some hc _) hover
  refine ⟨steps + 1, ?_⟩
  rw [List.replicate_succ, run, List.foldl_cons, hstep]
  refine hsteps.trans ?_
  rw [hrun, List.set_set]

/-- An append that nothing comes between does to store and notifier what `Hub.append` does at once. -/
theorem run_append (h : Hub) (appends : List AppendCall) (firings : List Firing) (new : NewEntry) :
    ∃ steps : Nat, ∃ later : AnnouncedStore,
      run ⟨h.store, ⟨h.notifier, firings⟩, appends⟩
        (.operate (.append new) h.time :: List.replicate steps (.proceed appends.length)) = later ∧
      later.store = (h.append new).2.store ∧ later.board.notifier = (h.append new).2.notifier := by
  cases happend : h.store.append new h.time with
  | mk answer store =>
    cases answer with
    | error error =>
      refine ⟨0, _, rfl, ?_⟩
      simp only [List.replicate_zero, run, List.foldl_cons, List.foldl_nil, act, Hub.append, happend,
        and_self]
    | ok e =>
      have hc : (appends ++ [AppendCall.inserted e])[appends.length]? = some (.inserted e) := by simp
      obtain ⟨steps, hsteps⟩ :=
        run_inserted (s := ⟨store, ⟨h.notifier, firings⟩, appends ++ [.inserted e]⟩) hc
      have hfirst : act ⟨h.store, ⟨h.notifier, firings⟩, appends⟩ (.operate (.append new) h.time) =
          ⟨store, ⟨h.notifier, firings⟩, appends ++ [.inserted e]⟩ := by
        simp only [act, happend, AppendCall.ofAnswer]
      refine ⟨steps, _, rfl, ?_⟩
      rw [run, List.foldl_cons, hfirst]
      change (run _ _).store = _ ∧ (run _ _).board.notifier = _
      rw [hsteps]
      simp only [Hub.append, happend, and_self]

end Alone

end AnnouncedStore

end DurableQueue
