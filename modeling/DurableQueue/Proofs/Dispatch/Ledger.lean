import DurableQueue.Proofs.Dispatch.Turn
import DurableQueue.Proofs.Store.Settling

/-!
Dispatchers that process batches in the foreground.

Without background tasks a dispatcher processes claims only in calls (`BusAction.IsForeground`). What a
run tells of them is its `Bus.ledger`: that a call begins to process a claim, that its update is answered,
that it is counted, and that it breaks down with claims in hand. A `Posting` is what one action does to
the tallies of the dispatchers, the calls in progress and the store, and tells.
-/

namespace DurableQueue

/-- What is told of calls that process claims. -/
inductive ProcessEvent where
  | begun (call node : Nat) (claim : Entry)
  /-- The update was answered and will be booked so; it found the one store and left the other. -/
  | answered (call node : Nat) (claim next : Entry) (verdict : Verdict)
    (answer : Except StoreError Unit) (before after : Store)
  | counted (call node : Nat) (verdict : Verdict)
  /-- The call broke down and left these claims. -/
  | brokeDown (call node : Nat) (claims : List Entry)

namespace ProcessEvent

def call : ProcessEvent → Nat
  | begun i _ _ | answered i _ _ _ _ _ _ _ | counted i _ _ | brokeDown i _ _ => i

end ProcessEvent

/-- What happens while no background tasks run and nothing is made to break down. Dispatchers process
only claims of their own. -/
def BusAction.IsForeground : BusAction → Prop
  | .start _ | .handle _ _ | .resolve _ _ _ | .breakDown _ => False
  | _ => True

/-- Jitter is drawn for every delay up to a longest one. -/
def Draw.AnswersUpTo (draw : Draw) (longest : Span) : Prop := ∀ s ≤ longest, draw s ≠ none

/-- No delay goes beyond a longest one, and jitter is drawn for all of them. -/
def BusAction.DrawsUpTo (longest : Span) : BusAction → Prop
  | .task _ draw => ∀ k, (draw k).AnswersUpTo longest
  | .add _ config _ _ _ => config.retryPolicy.maxBackoff ≤ longest
  | _ => True

/-- A handler does not resolve claims itself. -/
def Effect.LeavesUpdates : Effect → Prop
  | .operate op => op.isUpdate = false
  | _ => True

/-- Only dispatchers resolve claims. -/
def BusAction.LeavesUpdates : BusAction → Prop
  | .add _ _ registry _ _ => registry.Does Effect.LeavesUpdates
  | .operate op => op.isUpdate = false
  | _ => True

/-- What is known of everybody in a run. -/
structure Conduct where
  /-- Only dispatchers resolve claims. -/
  leavesUpdates : Prop
  /-- A longest delay, up to which jitter is drawn. -/
  longest : Option Span

/-- An action that does what is known of everybody. -/
structure BusAction.Follows (u : Conduct) (x : BusAction) : Prop where
  leavesUpdates : u.leavesUpdates → x.LeavesUpdates
  drawsUpTo : ∀ longest ∈ u.longest, x.DrawsUpTo longest

/-- The counters that tell of claims and of what became of them. -/
def DispatchStats.tally (s : DispatchStats) : DispatchStats :=
  { s with activeWorkers := 0, skippedClaimCycles := 0, reaped := 0 }

/-- A call that has no claims in hand, and has not broken down. -/
def Call.isQuiet : Call → Bool
  | .process _ .claiming | .process _ (.between _ []) | .shutdown _ _ => true
  | .process _ _ => false
  | .over r => r != .panicked

/-- The dispatcher for which a call processes a batch. -/
def Call.node? : Call → Option Nat
  | .process k _ => some k
  | _ => none

/-- What a step of a call tells that takes the one store to the other. -/
def Call.tells (i : Nat) (now : Timestamp) (s s' : Store) (before after : Call) : List ProcessEvent :=
  match before, after with
  | .process k (.between _ (e :: _)), .process _ (.attempting _ _ _) => [.begun i k e]
  | .process k (.attempting _ (.storing e next _) _), .process _ (.attempting _ (.booking _ v) _) =>
    [.answered i k e next v (s.update e next now).1 s s']
  | .process k (.attempting _ (.booking _ v) _), .process _ (.between _ _) => [.counted i k v]
  | .process k (.attempting _ a rest), .over .panicked => [.brokeDown i k (a.entry :: rest)]
  | _, _ => []

/-- A call that stays where it is tells nothing. -/
theorem Call.tells_self (c : Call) (i : Nat) (now : Timestamp) (s s' : Store) :
    c.tells i now s s' c = [] := by
  cases c with
  | process k stage =>
    cases stage with
    | attempting count a rest => cases a <;> rfl
    | between count es => cases es <;> rfl
    | claiming => rfl
  | _ => rfl

namespace Bus

/-- What an action tells of calls that process claims. -/
def told (b : Bus) : BusAction → List ProcessEvent
  | .task (.call i) draw =>
    let b' := b.act (.task (.call i) draw)
    match b.calls[i]?, b'.calls[i]? with
    | some c, some c' => c.tells i b.hub.time b.hub.store b'.hub.store c'
    | _, _ => []
  | _ => []

/-- What a run tells of calls that process claims. -/
def ledger (b : Bus) : List BusAction → List ProcessEvent
  | [] => []
  | x :: rest => b.told x ++ (b.act x).ledger rest

end Bus

/-- The tallies of all dispatchers, all calls and the store. -/
structure Books where
  tallies : List DispatchStats
  calls : List Call
  store : Store

def Bus.books (b : Bus) : Books := ⟨b.nodes.map fun n => n.stats.tally, b.calls, b.hub.store⟩

/-- At most one operation, which is no update if updates are left to dispatchers. -/
def Store.Operated (u : Conduct) (s s' : Store) : Prop :=
  s' = s ∨ ∃ op now, (u.leavesUpdates → op.isUpdate = false) ∧ s' = (s.apply op now).2

/-- The record that an attempt stores was made of its outcome. -/
def Entry.IsAnswerTo (next claim : Entry) (outcome : DispatchOutcome) : Prop :=
  ∃ policy draw now, outcome.nextEntry policy draw claim now = some next

/-- How an attempt is booked whose update was answered. -/
def Attempt.verdictOn (next : Entry) (outcome : DispatchOutcome) : Except StoreError Unit → Verdict
  | .ok () => verdict next outcome
  | .error e => refusal e

/-- What an action does in the foreground, and tells. -/
inductive Posting (u : Conduct) : Books → List ProcessEvent → Books → Prop where
  | operated (ds : List DispatchStats) (cs : List Call) {s s' : Store} (h : s.Operated u s') :
    Posting u ⟨ds, cs, s⟩ [] ⟨ds, cs, s'⟩
  | added (ds : List DispatchStats) (cs : List Call) (s : Store) :
    Posting u ⟨ds, cs, s⟩ [] ⟨ds ++ [.zero], cs, s⟩
  | asked (ds : List DispatchStats) (cs : List Call) (s : Store) {c : Call} (hc : c.isQuiet = true) :
    Posting u ⟨ds, cs, s⟩ [] ⟨ds, cs ++ [c], s⟩
  | quiet (ds : List DispatchStats) {cs : List Call} {s s' : Store} {i : Nat} {c c' : Call}
    (hi : cs[i]? = some c) (hc : c.isQuiet = true) (hc' : c'.isQuiet = true)
    (hnode : c'.node? = none) (h : s.Operated u s') : Posting u ⟨ds, cs, s⟩ [] ⟨ds, cs.set i c', s'⟩
  | claimed {ds : List DispatchStats} {cs : List Call} {s s' : Store} {i k : Nat} {d : DispatchStats}
    (es : List Entry) (hi : cs[i]? = some (.process k .claiming)) (hk : ds[k]? = some d)
    (h : s.Operated u s') :
    Posting u ⟨ds, cs, s⟩ []
      ⟨ds.set k { d with claimed := d.claimed + es.length },
        cs.set i (.process k (.between es.length es)), s'⟩
  | begun {ds : List DispatchStats} {cs : List Call} (s : Store) {i k count : Nat} {d : DispatchStats}
    {a : Attempt} {rest : List Entry}
    (hi : cs[i]? = some (.process k (.between count (a.entry :: rest)))) (hk : ds[k]? = some d)
    (opened : a.open? = some a) :
    Posting u ⟨ds, cs, s⟩ [.begun i k a.entry]
      ⟨ds.set k { d with inFlight := d.inFlight + 1 },
        cs.set i (.process k (.attempting count a rest)), s⟩
  | went (ds : List DispatchStats) {cs : List Call} {s s' : Store} {i k count : Nat} {a a' : Attempt}
    {rest : List Entry} (hi : cs[i]? = some (.process k (.attempting count a rest)))
    (opened : a.open? = some a) (opened' : a'.open? = some a') (entry : a'.entry = a.entry)
    (h : s.Operated u s') :
    Posting u ⟨ds, cs, s⟩ [] ⟨ds, cs.set i (.process k (.attempting count a' rest)), s'⟩
  | answered (ds : List DispatchStats) {cs : List Call} (s : Store) {i k count : Nat}
    {e next : Entry} {outcome : DispatchOutcome} {rest : List Entry} (now : Timestamp)
    (hi : cs[i]? = some (.process k (.attempting count (.storing e next outcome) rest)))
    (hnext : next.IsAnswerTo e outcome) :
    Posting u ⟨ds, cs, s⟩
      [.answered i k e next (Attempt.verdictOn next outcome (s.update e next now).1)
        (s.update e next now).1 s (s.update e next now).2]
      ⟨ds, cs.set i (.process k (.attempting count
        (.booking e (Attempt.verdictOn next outcome (s.update e next now).1)) rest)),
        (s.update e next now).2⟩
  | counted {ds : List DispatchStats} {cs : List Call} (s : Store) {i k count : Nat}
    {d : DispatchStats} {e : Entry} {v : Verdict} {rest : List Entry}
    (hi : cs[i]? = some (.process k (.attempting count (.booking e v) rest))) (hk : ds[k]? = some d) :
    Posting u ⟨ds, cs, s⟩ [.counted i k v]
      ⟨ds.set k { d.book v with inFlight := d.inFlight - 1 },
        cs.set i (.process k (.between count rest)), s⟩
  | brokeDown {ds : List DispatchStats} {cs : List Call} (s : Store) {i k count : Nat}
    {d : DispatchStats} {a : Attempt} {rest : List Entry}
    (hi : cs[i]? = some (.process k (.attempting count a rest))) (hk : ds[k]? = some d)
    (opened : a.open? = some a) (unknown : u.longest = none) :
    Posting u ⟨ds, cs, s⟩ [.brokeDown i k (a.entry :: rest)]
      ⟨ds.set k { d with inFlight := d.inFlight - 1 }, cs.set i (.over .panicked), s⟩

/-- An attempt whose handler leaves updates to dispatchers, and whose record was made of its outcome. -/
def Attempt.IsFair (u : Conduct) : Attempt → Prop
  | .handling _ effects _ | .sleeping _ _ effects _ =>
    ∀ effect ∈ effects, u.leavesUpdates → effect.LeavesUpdates
  | .storing e next outcome => next.IsAnswerTo e outcome
  | _ => True

/-- A dispatcher without tasks of its own. -/
structure Node.IsForeground (u : Conduct) (n : Node) : Prop where
  workers : n.workers = []
  claimLoop : n.claimLoop = none
  reaper : n.reaper = none
  registry : n.registry.Does fun effect => u.leavesUpdates → effect.LeavesUpdates
  backoff : ∀ longest ∈ u.longest, n.config.retryPolicy.maxBackoff ≤ longest

/-- The attempt that a call makes, also when its record is stored. -/
def Call.attempting? : Call → Option Attempt
  | .process _ (.attempting _ a _) => some a
  | _ => none

/-- A bus of dispatchers in the foreground. -/
structure Bus.IsForeground (u : Conduct) (b : Bus) : Prop where
  nodes : ∀ n ∈ b.nodes, n.IsForeground u
  calls : ∀ c ∈ b.calls, ∀ a, c.attempting? = some a → a.IsFair u
  unbroken : b.hub.breakdowns = ⟨0, 0, 0⟩

end DurableQueue
