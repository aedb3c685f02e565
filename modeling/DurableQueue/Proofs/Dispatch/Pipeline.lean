import DurableQueue.Proofs.Dispatch.BusChange
import Mathlib.Data.List.Induction

/-!
The way of claimed entries through a dispatcher, as a log.

The claim loop claims entries and holds them in its hands until they are in the queue. A worker
takes them from there, and an entry has ended once the worker is done with it. `Node.tells` reads
off a dispatcher before and after a step what happened of this, and `Bus.flow` collects it over a
run.
-/

namespace DurableQueue

/-- What is told of the entries that the claim loop of a dispatcher claims. -/
inductive PipelineEvent where
  /-- A cycle made its claim. -/
  | claimed (es : List Entry)
  /-- The claim of a cycle failed. -/
  | missed
  /-- A cycle made no claim for want of room in the queue. -/
  | skipped
  /-- The claim loop was made to end with these claims in its hands. -/
  | dropped (es : List Entry)
  | taken (worker : Nat) (e : Entry)
  /-- A worker is done with an entry. -/
  | ended (worker : Nat) (e : Entry)
deriving DecidableEq

namespace PipelineEvent

def isSkipped : PipelineEvent → Bool
  | skipped => true
  | _ => false

/-- How a cycle of the claim loop came out. -/
def isCycle : PipelineEvent → Bool
  | claimed _ | missed | skipped => true
  | _ => false

/-- What was claimed, in the order of the claims. -/
def claimedIn (log : List PipelineEvent) : List Entry :=
  log.flatMap fun
    | claimed es => es
    | _ => []

def droppedIn (log : List PipelineEvent) : List Entry :=
  log.flatMap fun
    | dropped es => es
    | _ => []

/-- What workers took, in the order in which they took it. -/
def takenIn (log : List PipelineEvent) : List Entry :=
  log.flatMap fun
    | taken _ e => [e]
    | _ => []

/-- What one worker took. -/
def takenBy (i : Nat) (log : List PipelineEvent) : List Entry :=
  log.flatMap fun
    | taken j e => if j = i then [e] else []
    | _ => []

/-- What one worker has ended. -/
def endedBy (i : Nat) (log : List PipelineEvent) : List Entry :=
  log.flatMap fun
    | ended j e => if j = i then [e] else []
    | _ => []

section Append

variable (log more : List PipelineEvent)

theorem claimedIn_append : claimedIn (log ++ more) = claimedIn log ++ claimedIn more :=
  List.flatMap_append

theorem droppedIn_append : droppedIn (log ++ more) = droppedIn log ++ droppedIn more :=
  List.flatMap_append

theorem takenIn_append : takenIn (log ++ more) = takenIn log ++ takenIn more := List.flatMap_append

theorem takenBy_append (i : Nat) : takenBy i (log ++ more) = takenBy i log ++ takenBy i more :=
  List.flatMap_append

theorem endedBy_append (i : Nat) : endedBy i (log ++ more) = endedBy i log ++ endedBy i more :=
  List.flatMap_append

end Append

end PipelineEvent

open PipelineEvent

/-- What a step of the claim loop tells, from where it was and is. -/
def ClaimLoop.tells : Option ClaimLoop → Option ClaimLoop → List PipelineEvent
  | some .claiming, some (.sending es _) => [.claimed es]
  | some .claiming, some (.waiting _) => [.missed]
  | some .checking, some (.waiting _) => [.skipped]
  | some (.sending rest _), some .stopped => [.dropped rest]
  | _, _ => []

/-- What a step of a worker tells. -/
def Worker.tells (i : Nat) : Worker → Worker → List PipelineEvent
  | idle, busy a => [.taken i a.entry]
  | busy a, idle | busy a, stopped => [.ended i a.entry]
  | _, _ => []

/-- What workers, numbered from `i`, tell. -/
def Worker.tellAll : Nat → List Worker → List Worker → List PipelineEvent
  | i, w :: ws, w' :: ws' => tells i w w' ++ tellAll (i + 1) ws ws'
  | _, _, _ => []

/-- What a step tells of a dispatcher. -/
def Node.tells (n n' : Node) : List PipelineEvent :=
  ClaimLoop.tells n.claimLoop n'.claimLoop ++ Worker.tellAll 0 n.workers n'.workers

namespace Bus

/-- What an action tells of a dispatcher. -/
def flowOf (b : Bus) (k : Nat) (x : BusAction) : List PipelineEvent :=
  match b.nodes[k]?, (b.act x).nodes[k]? with
  | some n, some n' => n.tells n'
  | _, _ => []

/-- What a run tells, when each of its actions tells something. -/
def tellOver {α : Type} (tell : Bus → BusAction → List α) (b : Bus) : List BusAction → List α
  | [] => []
  | x :: rest => tell b x ++ (b.act x).tellOver tell rest

/-- What a run tells of a dispatcher. -/
def flow (b : Bus) (k : Nat) (actions : List BusAction) : List PipelineEvent :=
  b.tellOver (fun b x => b.flowOf k x) actions

end Bus

/-- The entry that a worker has. -/
def Worker.entry? : Worker → Option Entry
  | busy a => some a.entry
  | _ => none

/-- The entry that one worker has. -/
def Node.atWorkBy (n : Node) (i : Nat) : List Entry := (n.workers[i]?.bind Worker.entry?).toList

/-- The claims that the claim loop has not sent yet. -/
def Node.hands (n : Node) : List Entry :=
  match n.claimLoop with
  | some (.sending rest _) => rest
  | _ => []

namespace ClaimManager

variable {m : ClaimManager} {s s' : Store} {count : Nat} {now : Timestamp} {es : List Entry}

/-- A claim that succeeds takes the first entries that it wants. -/
theorem eq_of_claim (h : m.claim s count now = (.ok es, s')) :
    es = (Store.claimFirst m.node m.ownerFilter now count s.live).1 ∧
      s' = { s with live := (Store.claimFirst m.node m.ownerFilter now count s.live).2 } := by
  simp only [claim, Store.claim, Store.guarded] at h
  cases hleft : s.failuresLeft with
  | zero =>
    rw [hleft] at h
    cases h
    exact ⟨rfl, rfl⟩
  | succ left =>
    rw [hleft] at h
    cases h

/-- A claim answers no more entries than it was asked for. -/
theorem length_le_of_claim (h : m.claim s count now = (.ok es, s')) : es.length ≤ count := by
  rw [(eq_of_claim h).1, Store.claimFirst_fst, List.length_map]
  exact List.length_take_le _ _

end ClaimManager

theorem ClaimLoop.tells_self (c : Option ClaimLoop) : tells c c = [] := by
  rcases c with _ | c
  · rfl
  · cases c <;> rfl

namespace Worker

theorem tells_self (i : Nat) (w : Worker) : tells i w w = [] := by
  cases w <;> rfl

theorem tellAll_self (i : Nat) (ws : List Worker) : tellAll i ws ws = [] := by
  induction ws generalizing i with
  | nil => rfl
  | cons w ws ih => rw [tellAll, tells_self, ih, List.nil_append]

/-- Only the worker that took a step has something to tell. -/
theorem tellAll_set {ws : List Worker} {i : Nat} {w : Worker} (hi : ws[i]? = some w) (w' : Worker)
    (j : Nat) : tellAll j ws (ws.set i w') = tells (j + i) w w' := by
  induction ws generalizing i j with
  | nil => cases hi
  | cons v ws ih =>
    cases i with
    | zero =>
      obtain rfl : v = w := Option.some.inj hi
      rw [List.set_cons_zero, tellAll, tellAll_self, List.append_nil, Nat.add_zero]
    | succ i =>
      rw [List.set_cons_succ, tellAll, tells_self, List.nil_append, ih hi, Nat.add_assoc,
        Nat.add_comm 1 i]

/-- A worker tells of itself alone. -/
theorem tells_others {i j : Nat} (hj : i ≠ j) (w w' : Worker) :
    takenBy j (tells i w w') = [] ∧ endedBy j (tells i w w') = [] := by
  unfold tells
  split <;> simp [takenBy, endedBy, hj]

/-- Workers that are made to stop are done with what they have. -/
theorem endedBy_tellAll_stopped (i j : Nat) (ws : List Worker) :
    endedBy j (tellAll i ws (ws.map fun _ => stopped)) =
      if i ≤ j then (ws[j - i]?.bind entry?).toList else [] := by
  induction ws generalizing i with
  | nil => simp [tellAll, endedBy]
  | cons w ws ih =>
    rw [List.map_cons, tellAll, endedBy_append, ih]
    rcases Nat.lt_trichotomy j i with hlt | rfl | hlt
    · rw [(tells_others (Nat.ne_of_gt hlt) w stopped).2, if_neg (by omega), if_neg (by omega)]
      rfl
    · rw [if_neg (by omega), if_pos (Nat.le_refl j), Nat.sub_self, List.append_nil]
      cases w <;> simp [tells, endedBy, entry?]
    · obtain ⟨d, rfl⟩ := Nat.exists_eq_add_of_lt hlt
      rw [(tells_others (Nat.ne_of_lt hlt) w stopped).2, if_pos (by omega), if_pos (by omega),
        List.nil_append, show i + d + 1 - (i + 1) = d by omega,
        show i + d + 1 - i = d + 1 by omega, List.getElem?_cons_succ]

/-- They tell nothing else. -/
theorem eq_ended_of_mem_tellAll_stopped {i : Nat} {ws : List Worker} {x : PipelineEvent}
    (hx : x ∈ tellAll i ws (ws.map fun _ => stopped)) : ∃ j e, x = .ended j e := by
  induction ws generalizing i with
  | nil => cases hx
  | cons w ws ih =>
    rw [List.map_cons, tellAll] at hx
    rcases List.mem_append.mp hx with hx | hx
    · cases w with
      | busy a => exact ⟨i, a.entry, List.mem_singleton.mp hx⟩
      | _ => cases hx
    · exact ih hx

end Worker

namespace Node

variable {n n' : Node}

theorem tells_of_worker {i : Nat} {w w' : Worker} (hi : n.workers[i]? = some w)
    (hworkers : n'.workers = n.workers.set i w') (hloop : n'.claimLoop = n.claimLoop) :
    n.tells n' = Worker.tells i w w' := by
  rw [tells, hworkers, hloop, ClaimLoop.tells_self, Worker.tellAll_set hi, List.nil_append,
    Nat.zero_add]

theorem tells_of_claimLoop (hworkers : n'.workers = n.workers) :
    n.tells n' = ClaimLoop.tells n.claimLoop n'.claimLoop := by
  rw [tells, hworkers, Worker.tellAll_self, List.append_nil]

theorem tells_of_aside (hworkers : n'.workers = n.workers) (hloop : n'.claimLoop = n.claimLoop) :
    n.tells n' = [] := by
  rw [tells_of_claimLoop hworkers, hloop, ClaimLoop.tells_self]

end Node

namespace Bus

theorem flowOf_eq {b : Bus} {k : Nat} {x : BusAction} {n n' : Node} (hn : b.nodes[k]? = some n)
    (hn' : (b.act x).nodes[k]? = some n') : b.flowOf k x = n.tells n' := by
  rw [flowOf, hn, hn']

theorem tellOver_concat {α : Type} (tell : Bus → BusAction → List α) (b : Bus)
    (actions : List BusAction) (x : BusAction) :
    b.tellOver tell (actions ++ [x]) = b.tellOver tell actions ++ tell (b.run actions) x := by
  induction actions generalizing b with
  | nil => exact List.append_nil _
  | cons y rest ih => rw [List.cons_append, tellOver, ih, tellOver, List.append_assoc]; rfl

theorem flow_concat (b : Bus) (k : Nat) (actions : List BusAction) (x : BusAction) :
    b.flow k (actions ++ [x]) = b.flow k actions ++ (b.run actions).flowOf k x :=
  b.tellOver_concat _ actions x

/-- What holds of a new dispatcher, and is kept by whatever happens, holds after every run. It may
speak of the actions so far and of what they told of the dispatcher. -/
theorem flow_induction {start : Timestamp} {k : Nat}
    {p : List BusAction → Node → List PipelineEvent → Prop}
    (new : ∀ actions id config registry clock isAttached,
      ((startingAt start).run actions).nodes[k]? =
        some (.unstarted id config registry clock isAttached) →
      p actions (.unstarted id config registry clock isAttached) [])
    (step : ∀ actions x n n' log, ((startingAt start).run actions).nodes[k]? = some n →
      (((startingAt start).run actions).act x).nodes[k]? = some n' →
      ((startingAt start).run actions).At k x n (((startingAt start).run actions).act x).hub n' →
      p actions n log → p (actions ++ [x]) n' (log ++ n.tells n'))
    (actions : List BusAction) :
    (((startingAt start).run actions).nodes[k]? = none → (startingAt start).flow k actions = []) ∧
      ∀ n, ((startingAt start).run actions).nodes[k]? = some n →
        p actions n ((startingAt start).flow k actions) := by
  induction actions using List.reverseRecOn with
  | nil => exact ⟨fun _ => rfl, fun n hn => by cases hn⟩
  | append_singleton actions x ih =>
    obtain ⟨hunknown, hknown⟩ := ih
    have hchange := ((startingAt start).run actions).change_act x
    rw [flow_concat, run_concat]
    cases hk : ((startingAt start).run actions).nodes[k]? with
    | none =>
      rw [hunknown hk, flowOf, hk]
      refine ⟨fun _ => rfl, fun n' hn' => ?_⟩
      obtain ⟨id, config, registry, clock, isAttached, -, rfl⟩ := hchange.new_node hk hn'
      rw [hn']
      exact new _ id config registry clock isAttached (by rw [run_concat]; exact hn')
    | some m =>
      obtain ⟨n₁, hn₁, hstep⟩ := hchange.at_node hk
      refine ⟨fun hnone => ?_, fun n' hn' => ?_⟩
      · rw [hnone] at hn₁
        cases hn₁
      · obtain rfl : n₁ = n' := Option.some.inj (hn₁.symm.trans hn')
        rw [flowOf_eq hk hn']
        exact step actions x m n₁ _ hk hn' hstep (hknown m hk)

end Bus

end DurableQueue
