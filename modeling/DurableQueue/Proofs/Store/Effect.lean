import DurableQueue.Store.Basic

/-!
What one operation does to a store.

`Store.Effect` lists every way an operation can end, with the answer and the store after it, and
`Store.effect_apply` says that running an operation is one of them. Proofs about all operations
split by its cases and never open the operations themselves.
-/

namespace DurableQueue.Store

/-- An operation that changes no entry and cannot be refused except by an injected failure. -/
def isReading : StoreOp → Bool
  | .count _ | .find _ | .search _ _ | .failNext _ => true
  | _ => false

/-- The answer of an operation at a time, and the store it leaves behind. -/
inductive Effect (now : Timestamp) (s : Store) :
    StoreOp → Except StoreError StoreAnswer → Store → Prop where
  /-- An error touches no entry; at most an injected failure is used up. -/
  | failed {op : StoreOp} (e : StoreError) (left : Nat) :
    Effect now s op (.error e) { s with failuresLeft := left }
  | read {op : StoreOp} (h : isReading op = true) (a : StoreAnswer) (left : Nat) :
    Effect now s op (.ok a) { s with failuresLeft := left }
  | appended (new : NewEntry) :
    Effect now s (.append new) (.ok (.entry (.ofNew ⟨s.lastId + 1⟩ new now)))
      { s with lastId := s.lastId + 1, live := s.live ++ [.ofNew ⟨s.lastId + 1⟩ new now] }
  | claimed (count : Nat) (claimer : NodeId) (owner : Option NodeId) :
    Effect now s (.claim count claimer owner)
      (.ok (.entries (claimFirst claimer owner now count s.live).1))
      { s with live := (claimFirst claimer owner now count s.live).2 }
  | resolved {claimed next stored : Entry} (found : s.liveEntry? claimed.id = some stored)
    (same : isSameClaim stored claimed = true) (move : stored.state.canMoveTo next.state = true) :
    Effect now s (.update claimed next) (.ok .done) (s.replace (resolved stored next now))
  | reaped {policy : ReapPolicy} {cutoff : Timestamp} (h : policy.cutoff now = .ok cutoff) :
    Effect now s (.reap policy)
      (.ok (.entries (s.changeWhere (·.isStaleClaim cutoff) (·.reaped policy now)).1))
      (s.changeWhere (·.isStaleClaim cutoff) (·.reaped policy now)).2
  | released (owner : NodeId) :
    Effect now s (.release owner)
      (.ok (.entries (s.changeWhere (·.isHeldBy owner) (·.released now)).1))
      (s.changeWhere (·.isHeldBy owner) (·.released now)).2
  | purged (olderThan : Timestamp) :
    Effect now s (.purge olderThan)
      (.ok (.count (s.live.filter (isPurgeable olderThan)).length))
      { s with live := s.live.filter fun e => !isPurgeable olderThan e
               history := s.history ++ s.live.filter (isPurgeable olderThan) }

@[simp] theorem Outcome.snd_map {α : Type} (f : α → StoreAnswer) (o : Outcome α) : (o.map f).2 = o.2 := by
  obtain ⟨_ | _, s⟩ := o <;> rfl

variable {s : Store} {op : StoreOp} {now : Timestamp}

/-- A guarded operation either uses up an injected failure or runs. -/
theorem effect_guarded {α : Type} (f : α → StoreAnswer) (run : Store → Outcome α)
    (h : Effect now s op ((run s).map f).1 ((run s).map f).2) :
    Effect now s op ((s.guarded run).map f).1 ((s.guarded run).map f).2 := by
  unfold guarded
  split
  · exact h
  · exact .failed _ _

theorem effect_update (s : Store) (claimed next : Entry) (now : Timestamp) :
    Effect now s (.update claimed next) (s.apply (.update claimed next) now).1
      (s.apply (.update claimed next) now).2 := by
  refine effect_guarded _ _ ?_
  cases found : s.liveEntry? claimed.id with
  | none => exact .failed _ _
  | some stored =>
    simp only
    cases same : isSameClaim stored claimed with
    | false => exact .failed _ _
    | true =>
      cases move : stored.state.canMoveTo next.state with
      | false => exact .failed _ _
      | true => exact .resolved found same move

theorem effect_reap (s : Store) (policy : ReapPolicy) (now : Timestamp) :
    Effect now s (.reap policy) (s.apply (.reap policy) now).1 (s.apply (.reap policy) now).2 := by
  refine effect_guarded _ _ ?_
  cases h : policy.cutoff now with
  | error e => exact .failed _ _
  | ok cutoff => exact .reaped h

/-- Running an operation has one of the listed effects. -/
theorem effect_apply (s : Store) (op : StoreOp) (now : Timestamp) :
    Effect now s op (s.apply op now).1 (s.apply op now).2 := by
  cases op with
  | append new => exact effect_guarded _ _ (.appended new)
  | claim count claimer owner => exact effect_guarded _ _ (.claimed count claimer owner)
  | update claimed next => exact effect_update s claimed next now
  | reap policy => exact effect_reap s policy now
  | release owner => exact effect_guarded _ _ (.released owner)
  | count state => exact effect_guarded _ _ (.read rfl _ _)
  | find id => exact effect_guarded _ _ (.read rfl _ _)
  | search key1 key2 => exact effect_guarded _ _ (.read rfl _ _)
  | purge olderThan => exact effect_guarded _ _ (.purged olderThan)
  | failNext count => exact .read rfl _ _

section Update

variable {claimed next stored : Entry}

/-! What an update comes to while no failure is injected. -/

theorem update_of_none (hleft : s.failuresLeft = 0) (hnone : s.liveEntry? claimed.id = none) :
    s.update claimed next now = (.error (.noEntry claimed.id), s) := by
  simp only [update, guarded, hleft, hnone]

theorem update_of_lost (hleft : s.failuresLeft = 0) (hfind : s.liveEntry? claimed.id = some stored)
    (hlost : isSameClaim stored claimed = false) :
    s.update claimed next now = (.error (.modifiedConcurrently claimed.id), s) := by
  simp only [update, guarded, hleft, hfind, hlost, Bool.not_false, ↓reduceIte]

theorem update_of_unmovable (hleft : s.failuresLeft = 0)
    (hfind : s.liveEntry? claimed.id = some stored) (hsame : isSameClaim stored claimed = true)
    (hmove : stored.state.canMoveTo next.state = false) :
    s.update claimed next now = (.error (.invalidMove claimed.id stored.state next.state), s) := by
  simp only [update, guarded, hleft, hfind, hsame, hmove, Bool.not_true, Bool.not_false,
    Bool.false_eq_true, ↓reduceIte]

theorem update_of_held (hleft : s.failuresLeft = 0) (hfind : s.liveEntry? claimed.id = some stored)
    (hsame : isSameClaim stored claimed = true) (hmove : stored.state.canMoveTo next.state = true) :
    s.update claimed next now = (.ok (), s.replace (resolved stored next now)) := by
  simp only [update, guarded, hleft, hfind, hsame, hmove, Bool.not_true, Bool.false_eq_true,
    ↓reduceIte]

end Update

end DurableQueue.Store
