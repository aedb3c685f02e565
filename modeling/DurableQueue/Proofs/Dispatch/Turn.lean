import DurableQueue.Proofs.Dispatch.AttemptLog
import DurableQueue.Proofs.Dispatch.TasksWithin
import Mathlib.Data.List.Perm.Basic
import Mathlib.Data.List.Perm.Subperm

/-!
What one step of a task does to claims.

Claims that a dispatcher or a call has and that no attempt was begun for are waiting. A `Turn` is what a
step of a task can do in normal operation: it is handed new claims, begins an attempt with a waiting
one, goes on with its attempt, stores its record, or does none of this and may let go of what it had.
Every step of the tasks of a dispatcher and of its calls is a turn, and tells what the turn tells.
-/

namespace DurableQueue

/-- The record by which an attempt resolves its claim: one more failure is counted unless the attempt
ended well. -/
structure Entry.Answers (next claim : Entry) : Prop where
  move : EntryState.inProcessing.canMoveTo next.state = true
  errorCount : next.errorCount =
    if next.state = .processed then claim.errorCount else countFailure claim.errorCount

/-- An attempt in normal operation: what the handler will do to the store, and what will be stored. -/
def Attempt.IsNormal : Attempt → Prop
  | .handling _ effects _ | .sleeping _ _ effects _ => ∀ effect ∈ effects, effect.IsNormal
  | .storing e next _ => next.Answers e
  | _ => True

/-- The claims of a dispatcher that wait for an attempt. -/
def Node.waiting (n : Node) : List Entry :=
  n.queue ++
    match n.claimLoop with
    | some (.sending rest _) => rest
    | _ => []

def ProcessStage.waiting : ProcessStage → List Entry
  | .claiming => []
  | .between _ rest | .attempting _ _ rest => rest

def Call.waiting : Call → List Entry
  | .process _ stage => stage.waiting
  | _ => []

/-- What a task has a hand in: claims that wait, its attempt and the store. -/
structure Share where
  waiting : List Entry
  attempt : Option Attempt
  store : Store

/-- What a step of a task does, and tells of attempts. Claims that wait may always be given up. -/
inductive Turn (t : BusTask) : Share → List AttemptEvent → Share → Prop where
  /-- At most, the attempt is given up because its record cannot be built. -/
  | quiet {w w' : List Entry} {o o' : Option Attempt} {s s' : Store} (kept : w'.Subperm w)
    (attempt : o' = o ∨ o' = none ∧ ∃ e outcome, o = some (.judged e outcome))
    (goesOn : s.GoesOn s') : Turn t ⟨w, o, s⟩ [] ⟨w', o', s'⟩
  | claimed {w w' es : List Entry} {o : Option Attempt} {s s' : Store} (kept : w'.Subperm (es ++ w))
    (handsOut : s.HandsOut es s') : Turn t ⟨w, o, s⟩ [] ⟨w', o, s'⟩
  | begun {w w' : List Entry} {a : Attempt} {s : Store} (kept : (a.entry :: w').Subperm w)
    (normal : a.IsNormal) : Turn t ⟨w, none, s⟩ [.begun t a.entry] ⟨w', some a, s⟩
  | went {w w' : List Entry} {a a' : Attempt} {s s' : Store} (kept : w'.Subperm w)
    (entry : a'.entry = a.entry) (normal : a'.IsNormal) (goesOn : s.GoesOn s') :
    Turn t ⟨w, some a, s⟩ [] ⟨w', some a', s'⟩
  | stored {w w' : List Entry} {e next : Entry} {outcome : DispatchOutcome} {s : Store}
    (kept : w'.Subperm w) (now : Timestamp) :
    Turn t ⟨w, some (.storing e next outcome), s⟩ [.stored t e next (s.update e next now).1]
      ⟨w', none, (s.update e next now).2⟩

/-- Claims that wait elsewhere do not matter, and any may be given up. -/
theorem Turn.frame {t : BusTask} {w w' : List Entry} {o o' : Option Attempt} {s s' : Store}
    {events : List AttemptEvent} (h : Turn t ⟨w, o, s⟩ events ⟨w', o', s'⟩) {rest v v' : List Entry}
    (hv : (w ++ rest).Subperm v) (hv' : v'.Subperm (w' ++ rest)) :
    Turn t ⟨v, o, s⟩ events ⟨v', o', s'⟩ := by
  have hmore {u : List Entry} (kept : w'.Subperm u) : v'.Subperm (u ++ rest) :=
    hv'.trans ((List.subperm_append_right rest).mpr kept)
  cases h with
  | quiet kept attempt goesOn => exact .quiet ((hmore kept).trans hv) attempt goesOn
  | @claimed _ _ es _ _ _ kept handsOut =>
    refine .claimed ((hmore kept).trans ?_) handsOut
    rw [List.append_assoc]
    exact (List.subperm_append_left es).mpr hv
  | @begun _ _ a _ kept normal =>
    have htaken : (a.entry :: (w' ++ rest)).Subperm v :=
      ((List.subperm_append_right rest).mpr kept).trans hv
    exact .begun (((List.subperm_cons _).mpr hv').trans htaken) normal
  | went kept entry normal goesOn => exact .went ((hmore kept).trans hv) entry normal goesOn
  | stored kept now => exact .stored ((hmore kept).trans hv) now

/-- Two states of a dispatcher with the same tasks and waiting claims. -/
structure Node.KeepsTasks (n n' : Node) : Prop where
  queue : n'.queue = n.queue
  workers : n'.workers = n.workers
  claimLoop : n'.claimLoop = n.claimLoop

theorem Node.KeepsTasks.waiting {n n' : Node} (h : n.KeepsTasks n') : n'.waiting = n.waiting := by
  rw [Node.waiting, Node.waiting, h.queue, h.claimLoop]

theorem DispatchOutcome.answers_nextEntry {outcome : DispatchOutcome} {policy : RetryPolicy}
    {draw : Draw} {claim next : Entry} {now : Timestamp}
    (h : outcome.nextEntry policy draw claim now = some next) : next.Answers claim := by
  refine ⟨canMoveTo_nextEntry h, ?_⟩
  cases outcome with
  | processed =>
    obtain rfl := Option.some.inj h
    rfl
  | undecodable reason =>
    obtain rfl := Option.some.inj h
    rfl
  | handlerFailed detail =>
    obtain ⟨decision, -, rfl⟩ := Option.map_eq_some_iff.mp h
    cases decision <;> rfl

/-- What is left of an attempt, unless its record is stored. -/
def Progress.attempt? : Progress → Option Attempt
  | .going a => a.open?
  | _ => none

/-- A dispatcher of normal handlers, on a hub whose updates do not break down. It gets its workers when
it is started. -/
structure Node.IsNormal (h : Hub) (n : Node) : Prop where
  registry : n.registry.Does Effect.IsNormal
  unstarted : n.isStarted = false → n.workers.length = 0
  unbroken : h.breakdowns.update = 0

theorem Node.IsNormal.of_eq {h h' : Hub} {n n' : Node} (hn : n.IsNormal h)
    (hregistry : n'.registry = n.registry) (hstarted : n'.isStarted = n.isStarted)
    (hworkers : n'.workers.length = n.workers.length)
    (hhub : h'.breakdowns.update = h.breakdowns.update) : n'.IsNormal h' where
  registry := hregistry ▸ hn.registry
  unstarted h := hworkers.trans (hn.unstarted (hstarted.symm.trans h))
  unbroken := hhub.trans hn.unbroken

theorem Hub.breakdowns_operate (h : Hub) (op : StoreOp) : (h.operate op).2.breakdowns = h.breakdowns := by
  cases op with
  | append new =>
    simp only [operate, append]
    rcases h.store.append new h.time with ⟨_ | _, s⟩ <;> rfl
  | _ => rfl

namespace Attempt

variable {t : BusTask} {h h' : Hub} {n n' : Node} {a : Attempt} {p : Progress} {draw : Draw}

/-- An attempt that begins. -/
theorem begin_spec (hn : n.IsNormal h) (e : Entry) :
    (begin_ n e).1.open? = some (begin_ n e).1 ∧ (begin_ n e).1.entry = e ∧
      (begin_ n e).1.IsNormal ∧ n.KeepsTasks (begin_ n e).2 ∧ (begin_ n e).2.IsNormal h := by
  have hcount : n.KeepsTasks (n.count fun s => { s with inFlight := s.inFlight + 1 }) := ⟨rfl, rfl, rfl⟩
  unfold begin_
  simp only
  split
  · rename_i activity hprepare
    exact ⟨rfl, rfl, Registry.Does.prepare hn.registry hprepare, hcount, hn.of_eq rfl rfl rfl rfl⟩
  · exact ⟨rfl, rfl, trivial, hcount, hn.of_eq rfl rfl rfl rfl⟩

/-- What a handler does in normal operation. -/
theorem perform_spec (hs : h.store.IsWellFormed) (hn : n.IsNormal h) {effect : Effect}
    (heffect : effect.IsNormal) (e : Entry) :
    h.store.GoesOn (perform h n e effect).1.store ∧ n.KeepsTasks (perform h n e effect).2 ∧
      (perform h n e effect).2.IsNormal (perform h n e effect).1 := by
  cases effect with
  | note note => exact ⟨.refl _, ⟨rfl, rfl, rfl⟩, hn.of_eq rfl rfl rfl rfl⟩
  | sleep span => exact ⟨.refl _, ⟨rfl, rfl, rfl⟩, hn⟩
  | remember d =>
    exact ⟨.refl _, ⟨rfl, rfl, rfl⟩, Registry.Does.remember hn.registry _ d, hn.unstarted, hn.unbroken⟩
  | operate op =>
    refine ⟨?_, ⟨rfl, rfl, rfl⟩, hn.of_eq rfl rfl rfl (congrArg _ (h.breakdowns_operate op))⟩
    have hgoes := Store.goesOn_apply hs heffect h.time
    rwa [← h.store_operate] at hgoes

/-- A step of an attempt is a turn of its task. -/
theorem turn_step? (hs : h.store.IsWellFormed) (hn : n.IsNormal h) (ha : ∀ b ∈ a.open?, b.IsNormal)
    (hstep : a.step? draw h n = some (p, h', n')) (w : List Entry) :
    Turn t ⟨w, a.open?, h.store⟩ (AttemptEvent.ofStep h t a.open? p.attempt?)
        ⟨w, p.attempt?, h'.store⟩ ∧
      n.KeepsTasks n' ∧ n'.IsNormal h' := by
  cases a with
  | handling e effects result =>
    have heffects : ∀ effect ∈ effects, effect.IsNormal := ha _ rfl
    cases effects with
    | nil =>
      cases hstep
      exact ⟨.went (List.Subperm.refl _) rfl trivial (.refl _), ⟨rfl, rfl, rfl⟩, hn⟩
    | cons effect rest =>
      obtain ⟨heffect, hrest⟩ := List.forall_mem_cons.mp heffects
      obtain ⟨hgoes, hkeeps, hnormal⟩ := perform_spec hs hn heffect e
      cases effect with
      | sleep span =>
        cases hstep
        exact ⟨.went (List.Subperm.refl _) rfl hrest (.refl _), ⟨rfl, rfl, rfl⟩, hn⟩
      | _ =>
        cases hstep
        exact ⟨.went (List.Subperm.refl _) rfl hrest hgoes, hkeeps, hnormal⟩
  | sleeping e wakeAt effects result =>
    have heffects : ∀ effect ∈ effects, effect.IsNormal := ha _ rfl
    simp only [step?] at hstep
    split at hstep
    · cases hstep
      exact ⟨.went (List.Subperm.refl _) rfl heffects (.refl _), ⟨rfl, rfl, rfl⟩, hn⟩
    · cases hstep
  | judged e outcome =>
    simp only [step?] at hstep
    split at hstep
    · rename_i next hnext
      cases hstep
      exact ⟨.went (List.Subperm.refl _) rfl (DispatchOutcome.answers_nextEntry hnext) (.refl _),
        ⟨rfl, rfl, rfl⟩, hn⟩
    · cases hstep
      have hbroke : Turn t ⟨w, some (judged e outcome), h.store⟩ [] ⟨w, none, h.store⟩ :=
        .quiet (List.Subperm.refl _) (.inr ⟨rfl, _, _, rfl⟩) (.refl _)
      exact ⟨hbroke, ⟨rfl, rfl, rfl⟩, hn.of_eq rfl rfl rfl rfl⟩
  | storing e next outcome =>
    simp only [step?, store, hn.unbroken] at hstep
    cases hstep
    simp only [AttemptEvent.ofStep, open?, hn.unbroken, ↓reduceIte]
    exact ⟨.stored (List.Subperm.refl _) h.time, ⟨rfl, rfl, rfl⟩, hn.of_eq rfl rfl rfl rfl⟩
  | booking e verdict =>
    cases hstep
    have hover : Turn t ⟨w, none, h.store⟩ [] ⟨w, none, h.store⟩ :=
      .quiet (List.Subperm.refl _) (.inl rfl) (.refl _)
    exact ⟨hover, ⟨rfl, rfl, rfl⟩, hn.of_eq rfl rfl rfl rfl⟩

end Attempt

end DurableQueue
